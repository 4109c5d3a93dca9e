/-
  HermesPlatform.Lib.QueryDenotation

  A compositional denotation of query trees, and its coincidence theorem.

  The denotation of a node is a function of the surrounding rows (`Ctx`), so
  correlated subqueries are covered.  What the nodes mean is a parameter: an
  `Algebra` interprets table references and calls over a database state `σ`,
  every other node without it, and closes `WITH RECURSIVE` by an operator of
  its own choice.

  `eval_congr`: the value of a query depends only on its physical references
  and on its calls at the arguments they are evaluated with (`CallsHold`).
-/

import HermesPlatform.Lib.QueryTree
import Mathlib.Data.List.OfFn
import Mathlib.Data.Fin.Tuple.Basic

namespace HermesPlatform
namespace QueryTree

/-- Interpretation of the nodes of a query tree.  `D` is the denotation of a
    node, `σ` a database state. -/
structure Algebra (σ τ φ κ D : Type) where
  table : σ → τ → List D → D
  call : σ → φ → List D → D
  node : κ → List D → D
  query : κ → List D → D
  /-- Closes the bodies of a `WITH RECURSIVE` clause over their own values. -/
  fix : (n : Nat) → ((Fin n → D) → Fin n → D) → Fin n → D

variable {σ ν τ φ κ D : Type}

/-- The bindings of a `WITH RECURSIVE` clause, last one first. -/
def bindings (ctes : List (ν × Tree ν τ φ κ)) (values : Fin ctes.length → D) :
    List (ν × D) :=
  (List.ofFn fun i => (ctes[i].1, values i)).reverse

theorem bindings_names (ctes : List (ν × Tree ν τ φ κ)) (values : Fin ctes.length → D) :
    (bindings ctes values).map Prod.fst = (ctes.map Prod.fst).reverse := by
  unfold bindings
  rw [List.map_reverse, List.map_ofFn]
  congr 1
  apply List.ext_getElem
  · simp
  · intro i h _
    simp

section Eval

variable (sees : ν → τ → Bool) (A : Algebra σ τ φ κ D)

mutual

/-- Value of a tree in state `s`, the visible bindings in `env`. -/
def eval (s : σ) (env : List (ν × D)) : Tree ν τ φ κ → D
  | .table ref args =>
      match env.find? fun b => sees b.1 ref with
      | some b => b.2
      | none => A.table s ref (evalList s env args)
  | .call fn args => A.call s fn (evalList s env args)
  | .node cls children => A.node cls (evalList s env children)
  -- Under `RECURSIVE` every body sees all names, else only the earlier ones.
  | .query cls recursive ctes parts =>
      let scope :=
        if recursive then
          bindings ctes (A.fix ctes.length fun values =>
            evalBodies s (bindings ctes values ++ env) ctes) ++ env
        else evalCtes s env ctes
      A.query cls (evalList s scope parts)

/-- Values of a list of children. -/
def evalList (s : σ) (env : List (ν × D)) : List (Tree ν τ φ κ) → List D
  | [] => []
  | t :: ts => eval s env t :: evalList s env ts

/-- The environment after a `WITH` clause without `RECURSIVE`. -/
def evalCtes (s : σ) (env : List (ν × D)) : List (ν × Tree ν τ φ κ) → List (ν × D)
  | [] => env
  | (n, t) :: rest => evalCtes s ((n, eval s env t) :: env) rest

/-- The values of all bodies of a `WITH RECURSIVE` clause in one environment. -/
def evalBodies (s : σ) (env : List (ν × D)) :
    (ctes : List (ν × Tree ν τ φ κ)) → Fin ctes.length → D
  | [] => fun i => i.elim0
  | (_, t) :: rest => Fin.cases (eval s env t) (evalBodies s env rest)

end

theorem evalCtes_names (s : σ) :
    ∀ (ctes : List (ν × Tree ν τ φ κ)) (env : List (ν × D)),
      (evalCtes sees A s env ctes).map Prod.fst
        = (ctes.map Prod.fst).reverse ++ env.map Prod.fst
  | [], env => by simp [evalCtes]
  | (n, t) :: rest, env => by
      rw [evalCtes, evalCtes_names s rest]
      simp

/-! ## Calls at their arguments -/

section Calls

variable (Q : φ → List D → Prop) (s : σ)

mutual

/-- Every call of the tree satisfies `Q` with the values its arguments have in
    state `s`; under `WITH RECURSIVE`, for any values of the bound names. -/
def CallsHold (env : List (ν × D)) : Tree ν τ φ κ → Prop
  | .table _ args => CallsHoldList env args
  | .call fn args => Q fn (evalList sees A s env args) ∧ CallsHoldList env args
  | .node _ children => CallsHoldList env children
  | .query _ true ctes parts =>
      (∀ values : Fin ctes.length → D, CallsHoldBodies (bindings ctes values ++ env) ctes) ∧
      CallsHoldList
        (bindings ctes (A.fix ctes.length fun values =>
          evalBodies sees A s (bindings ctes values ++ env) ctes) ++ env) parts
  | .query _ false ctes parts =>
      CallsHoldCtes env ctes ∧ CallsHoldList (evalCtes sees A s env ctes) parts

/-- `CallsHold` of a list of children. -/
def CallsHoldList (env : List (ν × D)) : List (Tree ν τ φ κ) → Prop
  | [] => True
  | t :: ts => CallsHold env t ∧ CallsHoldList env ts

/-- `CallsHold` of the bodies of a `WITH` clause without `RECURSIVE`. -/
def CallsHoldCtes (env : List (ν × D)) : List (ν × Tree ν τ φ κ) → Prop
  | [] => True
  | (n, t) :: rest =>
      CallsHold env t ∧ CallsHoldCtes ((n, eval sees A s env t) :: env) rest

/-- `CallsHold` of the bodies of a `WITH RECURSIVE` clause. -/
def CallsHoldBodies (env : List (ν × D)) : List (ν × Tree ν τ φ κ) → Prop
  | [] => True
  | (_, t) :: rest => CallsHold env t ∧ CallsHoldBodies env rest

end

end Calls

section Implication

variable {Q Q' : φ → List D → Prop} {s : σ}

mutual

/-- What implies `Q'` of every call of the tree may use that the call occurs. -/
theorem CallsHold.imp :
    ∀ (t : Tree ν τ φ κ) (env : List (ν × D)),
      (∀ f, .call f ∈ walk t → ∀ args, Q f args → Q' f args) →
      CallsHold sees A Q s env t → CallsHold sees A Q' s env t
  | .table ref args, env, hQ, h => by
      simp only [walk, CallsHold] at hQ h ⊢
      exact CallsHoldList.imp args env (fun f hf => hQ f (List.mem_cons_of_mem _ hf)) h
  | .call fn args, env, hQ, h => by
      simp only [walk, CallsHold] at hQ h ⊢
      exact ⟨hQ fn List.mem_cons_self _ h.1,
        CallsHoldList.imp args env (fun f hf => hQ f (List.mem_cons_of_mem _ hf)) h.2⟩
  | .node cls children, env, hQ, h => by
      simp only [walk, CallsHold] at hQ h ⊢
      exact CallsHoldList.imp children env (fun f hf => hQ f (List.mem_cons_of_mem _ hf)) h
  -- The walk lists the parts of a query before the bodies of its `WITH` clause.
  | .query cls true ctes parts, env, hQ, h => by
      simp only [walk, CallsHold] at hQ h ⊢
      refine ⟨fun values => ?_, ?_⟩
      · exact CallsHoldBodies.imp ctes _
          (fun f hf => hQ f (List.mem_cons_of_mem _ (List.mem_append_right _ hf))) (h.1 values)
      · exact CallsHoldList.imp parts _
          (fun f hf => hQ f (List.mem_cons_of_mem _ (List.mem_append_left _ hf))) h.2
  | .query cls false ctes parts, env, hQ, h => by
      simp only [walk, CallsHold] at hQ h ⊢
      refine ⟨?_, ?_⟩
      · exact CallsHoldCtes.imp ctes env
          (fun f hf => hQ f (List.mem_cons_of_mem _ (List.mem_append_right _ hf))) h.1
      · exact CallsHoldList.imp parts _
          (fun f hf => hQ f (List.mem_cons_of_mem _ (List.mem_append_left _ hf))) h.2

theorem CallsHoldList.imp :
    ∀ (ts : List (Tree ν τ φ κ)) (env : List (ν × D)),
      (∀ f, .call f ∈ walkList ts → ∀ args, Q f args → Q' f args) →
      CallsHoldList sees A Q s env ts → CallsHoldList sees A Q' s env ts
  | [], _, _, _ => by rw [CallsHoldList]; trivial
  | t :: ts, env, hQ, h => by
      simp only [walkList, CallsHoldList] at hQ h ⊢
      exact ⟨CallsHold.imp t env (fun f hf => hQ f (List.mem_append_left _ hf)) h.1,
        CallsHoldList.imp ts env (fun f hf => hQ f (List.mem_append_right _ hf)) h.2⟩

theorem CallsHoldCtes.imp :
    ∀ (ctes : List (ν × Tree ν τ φ κ)) (env : List (ν × D)),
      (∀ f, .call f ∈ walkCtes ctes → ∀ args, Q f args → Q' f args) →
      CallsHoldCtes sees A Q s env ctes → CallsHoldCtes sees A Q' s env ctes
  | [], _, _, _ => by rw [CallsHoldCtes]; trivial
  | (n, t) :: rest, env, hQ, h => by
      simp only [walkCtes, CallsHoldCtes] at hQ h ⊢
      exact ⟨CallsHold.imp t env
          (fun f hf => hQ f (List.mem_cons_of_mem _ (List.mem_append_left _ hf))) h.1,
        CallsHoldCtes.imp rest _
          (fun f hf => hQ f (List.mem_cons_of_mem _ (List.mem_append_right _ hf))) h.2⟩

theorem CallsHoldBodies.imp :
    ∀ (ctes : List (ν × Tree ν τ φ κ)) (env : List (ν × D)),
      (∀ f, .call f ∈ walkCtes ctes → ∀ args, Q f args → Q' f args) →
      CallsHoldBodies sees A Q s env ctes → CallsHoldBodies sees A Q' s env ctes
  | [], _, _, _ => by rw [CallsHoldBodies]; trivial
  | (n, t) :: rest, env, hQ, h => by
      simp only [walkCtes, CallsHoldBodies] at hQ h ⊢
      exact ⟨CallsHold.imp t env
          (fun f hf => hQ f (List.mem_cons_of_mem _ (List.mem_append_left _ hf))) h.1,
        CallsHoldBodies.imp rest env
          (fun f hf => hQ f (List.mem_cons_of_mem _ (List.mem_append_right _ hf))) h.2⟩

end

end Implication

/-! ## Coincidence -/

section Coincidence

variable {s s' : σ}

/-- The two states give a call the same value at these arguments. -/
abbrev CallAgrees (s s' : σ) (f : φ) (args : List D) : Prop :=
  A.call s f args = A.call s' f args

mutual

/-- **Coincidence.** Two states that agree on the physical references of a
    tree and on its calls at their arguments give it the same value. -/
theorem eval_congr :
    ∀ (t : Tree ν τ φ κ) (env : List (ν × D)),
      (∀ r ∈ physical sees (env.map Prod.fst) t, A.table s r = A.table s' r) →
      CallsHold sees A (CallAgrees A s s') s env t →
      eval sees A s env t = eval sees A s' env t
  | .table ref args, env, hT, hC => by
      simp only [physical, List.mem_append, CallsHold] at hT hC
      rw [eval, eval]
      cases hfind : env.find? fun b => sees b.1 ref with
      -- A name bound by a CTE has the same value in both states.
      | some b => rfl
      | none =>
          have hfree : (env.map Prod.fst).any (sees · ref) = false := by
            rw [List.any_map, List.any_eq_false]
            intro b hb
            simpa using List.find?_eq_none.mp hfind b hb
          have hargs := evalList_congr args env (fun r hr => hT r (Or.inr hr)) hC
          have href := hT ref (Or.inl (by simp [hfree]))
          simp only
          rw [hargs, href]
  | .call fn args, env, hT, hC => by
      simp only [physical, CallsHold] at hT hC
      have hargs := evalList_congr args env hT hC.2
      rw [eval, eval, ← hargs]
      exact hC.1
  | .node cls children, env, hT, hC => by
      simp only [physical, CallsHold] at hT hC
      rw [eval, eval, evalList_congr children env hT hC]
  | .query cls true ctes parts, env, hT, hC => by
      simp only [physical, List.mem_append, if_true, CallsHold] at hT hC
      rw [eval, eval]
      simp only [if_true]
      -- The bodies agree whatever values the recursive names have.
      have hstep : ∀ values : Fin ctes.length → D,
          evalBodies sees A s (bindings ctes values ++ env) ctes
            = evalBodies sees A s' (bindings ctes values ++ env) ctes := by
        intro values
        apply evalBodies_congr ctes _ _ (hC.1 values)
        rw [List.map_append, bindings_names]
        exact fun r hr => hT r (Or.inl hr)
      simp only [← hstep]
      congr 1
      apply evalList_congr parts _ _ hC.2
      rw [List.map_append, bindings_names]
      exact fun r hr => hT r (Or.inr hr)
  | .query cls false ctes parts, env, hT, hC => by
      simp only [physical, List.mem_append, Bool.false_eq_true, if_false, CallsHold] at hT hC
      rw [eval, eval]
      simp only [Bool.false_eq_true, if_false]
      -- The `WITH` clause extends both environments alike.
      rw [← evalCtes_congr ctes env (fun r hr => hT r (Or.inl hr)) hC.1]
      congr 1
      apply evalList_congr parts _ _ hC.2
      rw [evalCtes_names]
      exact fun r hr => hT r (Or.inr hr)

theorem evalList_congr :
    ∀ (ts : List (Tree ν τ φ κ)) (env : List (ν × D)),
      (∀ r ∈ physicalList sees (env.map Prod.fst) ts, A.table s r = A.table s' r) →
      CallsHoldList sees A (CallAgrees A s s') s env ts →
      evalList sees A s env ts = evalList sees A s' env ts
  | [], _, _, _ => by rw [evalList, evalList]
  | t :: ts, env, hT, hC => by
      simp only [physicalList, List.mem_append, CallsHoldList] at hT hC
      rw [evalList, evalList, eval_congr t env (fun r hr => hT r (Or.inl hr)) hC.1,
        evalList_congr ts env (fun r hr => hT r (Or.inr hr)) hC.2]

theorem evalCtes_congr :
    ∀ (ctes : List (ν × Tree ν τ φ κ)) (env : List (ν × D)),
      (∀ r ∈ physicalCtes sees false (env.map Prod.fst) ctes, A.table s r = A.table s' r) →
      CallsHoldCtes sees A (CallAgrees A s s') s env ctes →
      evalCtes sees A s env ctes = evalCtes sees A s' env ctes
  | [], _, _, _ => by rw [evalCtes, evalCtes]
  | (n, t) :: rest, env, hT, hC => by
      simp only [physicalCtes, List.mem_append, Bool.false_eq_true, if_false,
        CallsHoldCtes] at hT hC
      rw [evalCtes, evalCtes, ← eval_congr t env (fun r hr => hT r (Or.inl hr)) hC.1]
      apply evalCtes_congr rest _ _ hC.2
      rw [List.map_cons]
      exact fun r hr => hT r (Or.inr hr)

theorem evalBodies_congr :
    ∀ (ctes : List (ν × Tree ν τ φ κ)) (env : List (ν × D)),
      (∀ r ∈ physicalCtes sees true (env.map Prod.fst) ctes, A.table s r = A.table s' r) →
      CallsHoldBodies sees A (CallAgrees A s s') s env ctes →
      evalBodies sees A s env ctes = evalBodies sees A s' env ctes
  | [], _, _, _ => by rw [evalBodies, evalBodies]
  | (n, t) :: rest, env, hT, hC => by
      simp only [physicalCtes, List.mem_append, if_true, CallsHoldBodies] at hT hC
      rw [evalBodies, evalBodies, eval_congr t env (fun r hr => hT r (Or.inl hr)) hC.1,
        evalBodies_congr rest env (fun r hr => hT r (Or.inr hr)) hC.2]

end

end Coincidence

end Eval

end QueryTree
end HermesPlatform
