/-
  HermesPlatform.Lib.QueryTree

  Query trees with `WITH` clauses and their lexical name scoping.

  A tree is generic in four payloads: `ν` names a common table expression,
  `τ` is a table reference as written, `φ` a function call as written and `κ`
  the class of any other syntax node.  `walk` enumerates every node, in the
  way a syntax-directed checker does; `physical` is the reference semantics:
  the table references that no enclosing `WITH` clause binds.

  A name bound by a `WITH` clause is visible in the query the clause belongs
  to and in the later bodies of the same clause; under `WITH RECURSIVE` it is
  visible in every body of the clause, its own included.
-/

import Mathlib.Data.List.Basic

namespace HermesPlatform
namespace QueryTree

/-- Syntax tree of a query.  `query` is the only node that opens a scope: its
    `WITH` clause binds `ctes` for `parts`, which holds every other child of the
    query (select list, from list, both arms of a set operation, ...). -/
inductive Tree (ν τ φ κ : Type) where
  | table (ref : τ) (args : List (Tree ν τ φ κ))
  | call (fn : φ) (args : List (Tree ν τ φ κ))
  | node (cls : κ) (children : List (Tree ν τ φ κ))
  | query (cls : κ) (recursive : Bool) (ctes : List (ν × Tree ν τ φ κ))
      (parts : List (Tree ν τ φ κ))

/-- One syntax node as an enumeration of the tree meets it. -/
inductive Item (ν τ φ κ : Type) where
  | table (ref : τ)
  | call (fn : φ)
  | node (cls : κ)
  | cte (name : ν)
deriving DecidableEq

variable {ν τ φ κ : Type}

/-! ## Enumeration -/

mutual

/-- Every node of the tree, the bodies of `WITH` clauses included. -/
def walk : Tree ν τ φ κ → List (Item ν τ φ κ)
  | .table ref args => .table ref :: walkList args
  | .call fn args => .call fn :: walkList args
  | .node cls children => .node cls :: walkList children
  | .query cls _ ctes parts => .node cls :: (walkList parts ++ walkCtes ctes)

/-- `walk` over a list of children. -/
def walkList : List (Tree ν τ φ κ) → List (Item ν τ φ κ)
  | [] => []
  | t :: ts => walk t ++ walkList ts

/-- `walk` over the bindings of a `WITH` clause. -/
def walkCtes : List (ν × Tree ν τ φ κ) → List (Item ν τ φ κ)
  | [] => []
  | (n, t) :: rest => .cte n :: (walk t ++ walkCtes rest)

end

/-- The names every `WITH` clause of the tree binds, wherever it stands. -/
def cteNames (items : List (Item ν τ φ κ)) : List ν :=
  items.filterMap fun
    | .cte n => some n
    | _ => none

/-! ## Lexical scoping -/

section Scoping

variable (sees : ν → τ → Bool)

mutual

/-- The table references of the tree that no name of `env` and no enclosing
    `WITH` clause binds; `sees n r` says that `r` is written as the name `n`. -/
def physical (env : List ν) : Tree ν τ φ κ → List τ
  | .table ref args =>
      (if env.any (sees · ref) then [] else [ref]) ++ physicalList env args
  | .call _ args => physicalList env args
  | .node _ children => physicalList env children
  | .query _ recursive ctes parts =>
      let scope := (ctes.map Prod.fst).reverse ++ env
      physicalCtes recursive (if recursive then scope else env) ctes ++
        physicalList scope parts

/-- `physical` over a list of children. -/
def physicalList (env : List ν) : List (Tree ν τ φ κ) → List τ
  | [] => []
  | t :: ts => physical env t ++ physicalList env ts

/-- `physical` over the bodies of a `WITH` clause: without `RECURSIVE` a name
    becomes visible only to the bodies after its own. -/
def physicalCtes (recursive : Bool) (env : List ν) :
    List (ν × Tree ν τ φ κ) → List τ
  | [] => []
  | (n, t) :: rest =>
      physical env t ++ physicalCtes recursive (if recursive then env else n :: env) rest

end

mutual

/-- A physical reference is a node of the tree. -/
theorem mem_walk_of_mem_physical {r : τ} :
    ∀ (t : Tree ν τ φ κ) (env : List ν), r ∈ physical sees env t → .table r ∈ walk t
  | .table ref args, env, h => by
      rw [physical, List.mem_append] at h
      rw [walk, List.mem_cons]
      rcases h with h | h
      · split at h
        · simp at h
        · left
          rw [List.mem_singleton.mp h]
      · exact Or.inr (mem_walkList_of_mem_physicalList args env h)
  | .call fn args, env, h => by
      rw [physical] at h
      rw [walk, List.mem_cons]
      exact Or.inr (mem_walkList_of_mem_physicalList args env h)
  | .node cls children, env, h => by
      rw [physical] at h
      rw [walk, List.mem_cons]
      exact Or.inr (mem_walkList_of_mem_physicalList children env h)
  | .query cls recursive ctes parts, env, h => by
      rw [physical, List.mem_append] at h
      rw [walk, List.mem_cons, List.mem_append]
      rcases h with h | h
      · exact Or.inr (Or.inr (mem_walkCtes_of_mem_physicalCtes ctes recursive _ h))
      · exact Or.inr (Or.inl (mem_walkList_of_mem_physicalList parts _ h))

theorem mem_walkList_of_mem_physicalList {r : τ} :
    ∀ (ts : List (Tree ν τ φ κ)) (env : List ν),
      r ∈ physicalList sees env ts → .table r ∈ walkList ts
  | [], _, h => by simp [physicalList] at h
  | t :: ts, env, h => by
      rw [physicalList, List.mem_append] at h
      rw [walkList, List.mem_append]
      rcases h with h | h
      · exact Or.inl (mem_walk_of_mem_physical t env h)
      · exact Or.inr (mem_walkList_of_mem_physicalList ts env h)

theorem mem_walkCtes_of_mem_physicalCtes {r : τ} :
    ∀ (ctes : List (ν × Tree ν τ φ κ)) (recursive : Bool) (env : List ν),
      r ∈ physicalCtes sees recursive env ctes → .table r ∈ walkCtes ctes
  | [], _, _, h => by simp [physicalCtes] at h
  | (n, t) :: rest, recursive, env, h => by
      rw [physicalCtes, List.mem_append] at h
      rw [walkCtes, List.mem_cons, List.mem_append]
      rcases h with h | h
      · exact Or.inr (Or.inl (mem_walk_of_mem_physical t env h))
      · exact Or.inr (Or.inr (mem_walkCtes_of_mem_physicalCtes rest recursive _ h))

end

end Scoping

end QueryTree
end HermesPlatform
