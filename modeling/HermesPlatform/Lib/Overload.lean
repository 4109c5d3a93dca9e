/-
  HermesPlatform.Lib.Overload

  Overload resolution over a search path of schemas.

  The candidates of a qualified name are the objects of its schema; those of an
  unqualified name are the objects of that name in any schema of the path,
  less the ones whose argument types an object of an earlier schema has too.
  An exact match of the argument types wins, wherever it stands in the path.
  What happens without one is a `Choice` among the candidates.
-/

import Mathlib.Data.List.Basic

namespace HermesPlatform
namespace Overload

/-- What resolution looks at in an object of the catalog. -/
structure Signature where
  schema : String
  name : String
  argTypes : List String
deriving DecidableEq, Repr

/-- The selection when no candidate takes the argument types exactly. -/
structure Choice (α : Type) where
  best : List α → List String → Option α
  best_mem : ∀ {candidates argTypes a}, best candidates argTypes = some a → a ∈ candidates

/-- Fails without an exact match. -/
def Choice.exact {α : Type} : Choice α where
  best _ _ := none
  best_mem h := nomatch h

variable {α : Type} (sig : α → Signature)

/-- An object of an earlier schema of the path has the name and the argument
    types of `a`. -/
def hidden (catalog : List α) (path : List String) (a : α) : Bool :=
  catalog.any fun b =>
    (sig b).name = (sig a).name ∧ (sig b).argTypes = (sig a).argTypes ∧
      path.idxOf (sig b).schema < path.idxOf (sig a).schema

/-- The objects a name may stand for. -/
def candidates (catalog : List α) (path : List String) : Option String → String → List α
  | some schema, name => catalog.filter fun a => (sig a).schema = schema ∧ (sig a).name = name
  | none, name => catalog.filter fun a =>
      (sig a).name = name ∧ (sig a).schema ∈ path ∧ hidden sig catalog path a = false

theorem mem_candidates_qualified {catalog : List α} {path : List String} {schema name : String}
    {a : α} :
    a ∈ candidates sig catalog path (some schema) name ↔
      a ∈ catalog ∧ (sig a).schema = schema ∧ (sig a).name = name := by
  simp [candidates]

theorem mem_candidates_unqualified {catalog : List α} {path : List String} {name : String}
    {a : α} :
    a ∈ candidates sig catalog path none name ↔
      a ∈ catalog ∧ (sig a).name = name ∧ (sig a).schema ∈ path ∧
        hidden sig catalog path a = false := by
  simp [candidates]

/-- The object a name with these argument types stands for. -/
def resolve (choice : Choice α) (catalog : List α) (path : List String)
    (qualifier : Option String) (name : String) (argTypes : List String) : Option α :=
  let found := candidates sig catalog path qualifier name
  match found.find? fun a => (sig a).argTypes = argTypes with
  | some a => some a
  | none => choice.best found argTypes

/-- The selected object is one of the candidates. -/
theorem resolve_mem {choice : Choice α} {catalog : List α} {path : List String}
    {qualifier : Option String} {name : String} {argTypes : List String} {a : α}
    (h : resolve sig choice catalog path qualifier name argTypes = some a) :
    a ∈ candidates sig catalog path qualifier name := by
  simp only [resolve] at h
  split at h
  · -- An exact match is found among the candidates, any other is chosen from them.
    rename_i b hfind
    cases h
    exact List.mem_of_find?_eq_some hfind
  · exact choice.best_mem h

end Overload
end HermesPlatform
