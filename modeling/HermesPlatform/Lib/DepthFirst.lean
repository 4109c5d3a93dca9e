/-
  HermesPlatform.Lib.DepthFirst

  Depth-first search for a cycle, and the order in which it leaves the nodes.

  `visit` is the recursive search with a set of nodes being visited and a set of
  nodes done.  The recursion is bounded by fuel; `visit_fuel` shows that one
  more unit than there are nodes is always enough.  A search without a cycle
  leaves every node after all its dependencies (`Ordered`), which is what an
  induction along the dependencies needs.  A search of a graph without a cycle
  finds none (`visitAll_ne_cycle`), and such a graph is one that can be ordered
  (`acyclic_of_ordered`).
-/

import HermesPlatform.Lib.Python
import Mathlib.Data.List.Dedup
import Mathlib.Logic.Relation

namespace HermesPlatform
namespace DepthFirst

open Python

/-- Why a search stops. -/
inductive Failure where
  | cycle
  | outOfFuel
deriving DecidableEq, Repr

section Search

variable {κ : Type} [DecidableEq κ] (deps : κ → List κ)

/-- `visit(key)`: the nodes done after it, the last one first. -/
def visit : Nat → List κ → List κ → κ → Except Failure (List κ)
  | 0, _, _, _ => .error .outOfFuel
  | fuel + 1, visiting, visited, key =>
      if key ∈ visited then .ok visited
      else if key ∈ visiting then .error .cycle
      else foldEach (visit fuel (key :: visiting)) visited (deps key) >>=
        fun visited' => .ok (key :: visited')

/-- `for key in keys: visit(key)`. -/
def visitAll (fuel : Nat) (keys : List κ) : Except Failure (List κ) :=
  foldEach (visit deps fuel []) [] keys

end Search

variable {κ : Type} {deps : κ → List κ}

/-! ## The order of completion -/

/-- Every node of the list comes before its dependencies. -/
def Ordered (deps : κ → List κ) : List κ → Prop
  | [] => True
  | key :: rest => (∀ d ∈ deps key, d ∈ rest) ∧ Ordered deps rest

/-- Nodes that depend on nothing are ordered anyhow. -/
theorem ordered_of_isolated (order : List κ) : Ordered (fun _ => []) order := by
  induction order with
  | nil => trivial
  | cons key rest ih => exact ⟨fun d hd => absurd hd List.not_mem_nil, ih⟩

/-- Induction along the dependencies of the nodes of an ordered list. -/
theorem Ordered.induction {P : κ → Prop} {order : List κ} (h : Ordered deps order)
    (hstep : ∀ key ∈ order, (∀ d ∈ deps key, P d) → P key) :
    ∀ key ∈ order, P key := by
  induction order with
  | nil => simp
  | cons key rest ih =>
      obtain ⟨hdeps, hrest⟩ := h
      -- The dependencies of the first node are all in the rest.
      have hP := ih hrest fun k hk => hstep k (List.mem_cons_of_mem _ hk)
      intro k hk
      rcases List.mem_cons.mp hk with rfl | hk
      · exact hstep k List.mem_cons_self fun d hd => hP d (hdeps d hd)
      · exact hP k hk

/-- What a search of `keys` that succeeds returns. -/
structure Done (deps : κ → List κ) (visited keys visited' : List κ) : Prop where
  ordered : Ordered deps visited'
  grows : ∀ k ∈ visited, k ∈ visited'
  reaches : ∀ k ∈ keys, k ∈ visited'

theorem Done.snoc {visited keys visited' visited'' : List κ} {key : κ}
    (h : Done deps visited keys visited') (h' : Done deps visited' [key] visited'') :
    Done deps visited (keys ++ [key]) visited'' := by
  refine ⟨h'.ordered, fun k hk => h'.grows k (h.grows k hk), ?_⟩
  intro k hk
  rcases List.mem_append.mp hk with hk | hk
  · exact h'.grows k (h.reaches k hk)
  · exact h'.reaches k hk

/-- A loop over nodes each of whose searches does its work does all of it. -/
theorem foldEach_done {step : List κ → κ → Except Failure (List κ)} {keys visited visited' : List κ}
    (hstep : ∀ v v' k, Ordered deps v → step v k = .ok v' → Done deps v [k] v')
    (hord : Ordered deps visited) (h : foldEach step visited keys = .ok visited') :
    Done deps visited keys visited' := by
  have hinit : Done deps visited [] visited := ⟨hord, fun _ hk => hk, by simp⟩
  have hloop := foldEach_induction (P := fun acc seen => Done deps visited seen acc)
    (fun acc acc' seen k hP hk => hP.snoc (hstep acc acc' k hP.ordered hk))
    keys visited visited' [] hinit h
  rwa [List.nil_append] at hloop

variable [DecidableEq κ]

theorem visit_done (fuel : Nat) :
    ∀ (visiting visited visited' : List κ) (key : κ), Ordered deps visited →
      visit deps fuel visiting visited key = .ok visited' → Done deps visited [key] visited' := by
  induction fuel with
  | zero =>
      intro visiting visited visited' key _ h
      cases h
  | succ fuel ih =>
      intro visiting visited visited' key hord h
      rw [visit] at h
      split at h
      · -- The node has been left before: nothing changes.
        rename_i hmem
        cases h
        exact ⟨hord, fun _ hk => hk, fun k hk => by rwa [List.mem_singleton.mp hk]⟩
      · -- A node being visited is a cycle; any other is put before its dependencies.
        split at h
        · cases h
        · rw [bind_eq_ok] at h
          obtain ⟨inner, hinner, hout⟩ := h
          cases hout
          have hdone := foldEach_done (fun v v' k => ih (key :: visiting) v v' k) hord hinner
          refine ⟨⟨hdone.reaches, hdone.ordered⟩, ?_, ?_⟩
          · exact fun k hk => List.mem_cons_of_mem _ (hdone.grows k hk)
          · intro k hk
            rw [List.mem_singleton.mp hk]
            exact List.mem_cons_self

/-- A search over all nodes that finds no cycle orders them. -/
theorem ordered_of_visitAll {keys visited : List κ} {fuel : Nat}
    (h : visitAll deps fuel keys = .ok visited) :
    Ordered deps visited ∧ ∀ k ∈ keys, k ∈ visited := by
  have hdone : Done deps [] keys visited :=
    foldEach_done (fun v v' k => visit_done fuel [] v v' k) trivial h
  exact ⟨hdone.ordered, hdone.reaches⟩

/-! ## Fuel -/

/-- The search never runs out of fuel when the nodes not being visited are
    fewer than the fuel. -/
theorem visit_fuel {keys : List κ} (hclosed : ∀ k ∈ keys, ∀ d ∈ deps k, d ∈ keys) (fuel : Nat) :
    ∀ (visiting visited : List κ) (key : κ), key ∈ keys → visiting.Nodup → visiting ⊆ keys →
      keys.length < fuel + visiting.length →
      visit deps fuel visiting visited key ≠ .error .outOfFuel := by
  induction fuel with
  | zero =>
      intro visiting visited key _ hnodup hsub hfuel
      -- The nodes being visited are distinct, so there are at most `keys.length` of them.
      have hle : visiting.length ≤ keys.length := (hnodup.subperm hsub).length_le
      omega
  | succ fuel ih =>
      intro visiting visited key hkey hnodup hsub hfuel h
      rw [visit] at h
      split at h
      · cases h
      · split at h
        · cases h
        · rename_i hvisiting
          -- The node joins those being visited, which makes up for the unit of fuel spent.
          have hnodup' : (key :: visiting).Nodup := List.nodup_cons.mpr ⟨hvisiting, hnodup⟩
          have hsub' : key :: visiting ⊆ keys := List.cons_subset.mpr ⟨hkey, hsub⟩
          have hfuel' : keys.length < fuel + (key :: visiting).length := by
            rw [List.length_cons]
            omega
          cases hinner : foldEach (visit deps fuel (key :: visiting)) visited (deps key) with
          | ok inner =>
              rw [hinner] at h
              cases h
          | error e =>
              rw [hinner] at h
              cases h
              obtain ⟨v, d, hd, herr⟩ := foldEach_error hinner
              exact ih (key :: visiting) v d (hclosed key hkey d hd) hnodup' hsub' hfuel' herr

/-- One more unit of fuel than there are nodes is enough. -/
theorem visitAll_ne_outOfFuel {keys : List κ} (hclosed : ∀ k ∈ keys, ∀ d ∈ deps k, d ∈ keys)
    {fuel : Nat} (hfuel : keys.length < fuel) : visitAll deps fuel keys ≠ .error .outOfFuel := by
  intro h
  obtain ⟨v, k, hk, herr⟩ := foldEach_error h
  exact visit_fuel hclosed fuel [] v k hk List.nodup_nil (List.nil_subset _) hfuel herr

/-! ## Cycles -/

/-- No node depends on itself, over any number of steps. -/
def Acyclic (deps : κ → List κ) : Prop :=
  ∀ key, ¬ Relation.TransGen (fun a b => b ∈ deps a) key key

/-- The nodes being visited are those on a way to the node that is searched. -/
theorem visit_ne_cycle (hacyclic : Acyclic deps) (fuel : Nat) :
    ∀ (visiting visited : List κ) (key : κ),
      (∀ v ∈ visiting, Relation.TransGen (fun a b => b ∈ deps a) v key) →
      visit deps fuel visiting visited key ≠ .error .cycle := by
  induction fuel with
  | zero =>
      intro visiting visited key _ h
      cases h
  | succ fuel ih =>
      intro visiting visited key hpath h
      rw [visit] at h
      split at h
      · cases h
      split at h
      · -- The way leads back to the node.
        rename_i hmem
        exact hacyclic key (hpath key hmem)
      · cases hinner : foldEach (visit deps fuel (key :: visiting)) visited (deps key) with
        | ok inner =>
            rw [hinner] at h
            cases h
        | error e =>
            rw [hinner] at h
            cases h
            obtain ⟨v, d, hd, herr⟩ := foldEach_error hinner
            refine ih (key :: visiting) v d ?_ herr
            intro w hw
            obtain rfl | hw := List.mem_cons.mp hw
            · exact .single hd
            · exact (hpath w hw).tail hd

theorem visitAll_ne_cycle (hacyclic : Acyclic deps) (fuel : Nat) (keys : List κ) :
    visitAll deps fuel keys ≠ .error .cycle := by
  intro h
  obtain ⟨v, k, _, herr⟩ := foldEach_error h
  exact visit_ne_cycle hacyclic fuel [] v k (by simp) herr

omit [DecidableEq κ] in
/-- Dependencies that can be ordered have no cycle. -/
theorem acyclic_of_ordered {order : List κ} (h : Ordered deps order)
    (hall : ∀ key, deps key ≠ [] → key ∈ order) : Acyclic deps := by
  have hnever : ∀ key ∈ order, ¬ Relation.TransGen (fun a b => b ∈ deps a) key key := by
    refine h.induction (P := fun key => ¬ Relation.TransGen (fun a b => b ∈ deps a) key key) ?_
    intro key _ hdeps hcycle
    -- A cycle through the node is one through its first dependency on it.
    obtain ⟨d, hd, hback⟩ := Relation.TransGen.head'_iff.mp hcycle
    exact hdeps d hd (.tail' hback hd)
  intro key hcycle
  obtain ⟨d, hd, -⟩ := Relation.TransGen.head'_iff.mp hcycle
  exact hnever key (hall key (List.ne_nil_of_mem hd)) hcycle

omit [DecidableEq κ] in
theorem ordered_iff {order : List κ} : Ordered deps order ↔
    ∀ before key after, order = before ++ key :: after → ∀ d ∈ deps key, d ∈ after := by
  induction order with
  | nil => simp [Ordered]
  | cons k rest ih =>
      constructor
      · rintro ⟨hdeps, hrest⟩ before key after heq
        cases before with
        | nil =>
            cases heq
            exact hdeps
        | cons b before =>
            cases heq
            exact ih.mp hrest before key after rfl
      · intro h
        refine ⟨h [] k rest rfl, ih.mpr ?_⟩
        intro before key after heq
        exact h (k :: before) key after (by rw [heq, List.cons_append])

/-- The nodes of interest, each once, are still ordered. -/
theorem Ordered.restrict {order keys : List κ} (h : Ordered deps order)
    (hclosed : ∀ k ∈ keys, ∀ d ∈ deps k, d ∈ keys) :
    Ordered deps (order.filter (· ∈ keys)).dedup := by
  induction order with
  | nil => trivial
  | cons k rest ih =>
      obtain ⟨hdeps, hrest⟩ := h
      by_cases hk : k ∈ keys
      · rw [List.filter_cons_of_pos (by simpa using hk)]
        by_cases hlater : k ∈ rest.filter (· ∈ keys)
        · rw [List.dedup_cons_of_mem hlater]
          exact ih hrest
        · rw [List.dedup_cons_of_notMem hlater]
          refine ⟨?_, ih hrest⟩
          intro d hd
          rw [List.mem_dedup, List.mem_filter]
          exact ⟨hdeps d hd, by simpa using hclosed k hk d hd⟩
      · rw [List.filter_cons_of_neg (by simpa using hk)]
        exact ih hrest

end DepthFirst
end HermesPlatform
