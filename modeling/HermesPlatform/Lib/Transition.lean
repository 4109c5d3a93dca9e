/-
  HermesPlatform.Lib.Transition

  Labelled transition systems whose step is a partial function, and their runs.

  `Path M good s t`: a run from `s` to `t` in which every step satisfies `good`,
  a condition on the state before the step and the action taken.  An invariant
  is proved once for one step and holds of every state of such a run.
-/

import Mathlib.Data.Option.Basic

namespace HermesPlatform
namespace Transition

/-- A transition system: its initial states, and the effect of an action, `none`
    where the action is not enabled. -/
structure System (σ α : Type) where
  init : σ → Prop
  step : σ → α → Option σ

namespace System

variable {σ α : Type} (M : System σ α)

/-- Every step is allowed. -/
def anyStep : σ → α → Prop := fun _ _ => True

/-- A run whose steps all satisfy `good`. -/
inductive Path (good : σ → α → Prop) (s : σ) : σ → Prop where
  | refl : Path good s s
  | snoc {t u : σ} {a : α} (run : Path good s t) (ok : good t a) (step : M.step t a = some u) :
      Path good s u

/-- A state that a run from an initial state ends in. -/
def Reachable (good : σ → α → Prop) (t : σ) : Prop :=
  ∃ s, M.init s ∧ M.Path good s t

/-- The state after a list of actions. -/
def exec (s : σ) : List α → Option σ
  | [] => some s
  | a :: as => (M.step s a).bind fun t => exec t as

variable {M} {good : σ → α → Prop}

theorem Path.trans {s t u : σ} (h : M.Path good s t) (h' : M.Path good t u) :
    M.Path good s u := by
  induction h' with
  | refl => exact h
  | snoc _ ok step ih => exact .snoc ih ok step

/-- A weaker condition allows the same run. -/
theorem Path.mono {good' : σ → α → Prop} (himp : ∀ s a, good s a → good' s a) {s t : σ}
    (h : M.Path good s t) : M.Path good' s t := by
  induction h with
  | refl => exact .refl
  | snoc _ ok step ih => exact .snoc ih (himp _ _ ok) step

/-- What the steps of a run preserve holds at its end. -/
theorem Path.preserves (Inv : σ → Prop)
    (hstep : ∀ s a t, Inv s → good s a → M.step s a = some t → Inv t) {s t : σ}
    (h : M.Path good s t) (hs : Inv s) : Inv t := by
  induction h with
  | refl => exact hs
  | snoc _ ok step ih => exact hstep _ _ _ ih ok step

/-- **Invariant rule.** What holds initially and is preserved by the steps holds
    in every reachable state. -/
theorem Reachable.invariant (Inv : σ → Prop) (hinit : ∀ s, M.init s → Inv s)
    (hstep : ∀ s a t, Inv s → good s a → M.step s a = some t → Inv t) {t : σ}
    (h : M.Reachable good t) : Inv t := by
  obtain ⟨s, hs, hpath⟩ := h
  exact hpath.preserves Inv hstep (hinit s hs)

theorem Reachable.init {s : σ} (h : M.init s) : M.Reachable good s :=
  ⟨s, h, .refl⟩

theorem Reachable.path {s t : σ} (h : M.Reachable good s) (hpath : M.Path good s t) :
    M.Reachable good t := by
  obtain ⟨s₀, hs₀, hrun⟩ := h
  exact ⟨s₀, hs₀, hrun.trans hpath⟩

theorem Reachable.mono {good' : σ → α → Prop} (himp : ∀ s a, good s a → good' s a) {t : σ}
    (h : M.Reachable good t) : M.Reachable good' t := by
  obtain ⟨s, hs, hpath⟩ := h
  exact ⟨s, hs, hpath.mono himp⟩

/-- Every action of the list is allowed in the state it is taken in. -/
def Allowed (M : System σ α) (good : σ → α → Prop) (s : σ) : List α → Prop
  | [] => True
  | a :: as => good s a ∧ ∀ t, M.step s a = some t → M.Allowed good t as

/-- An executed list of allowed actions is a run. -/
theorem path_of_allowed (as : List α) {s t : σ} (hgood : M.Allowed good s as)
    (h : M.exec s as = some t) : M.Path good s t := by
  induction as generalizing s with
  | nil =>
      cases h
      exact .refl
  | cons a as ih =>
      obtain ⟨hok, hrest⟩ := hgood
      rw [exec, Option.bind_eq_some_iff] at h
      obtain ⟨mid, hmid, h⟩ := h
      -- Runs grow at the end, the list is taken from the front.
      have hone : M.Path good s mid := .snoc .refl hok hmid
      exact hone.trans (ih (hrest mid hmid) h)

theorem allowed_cons {s t : σ} {a : α} {as : List α} (hgood : good s a)
    (hstep : M.step s a = some t) (h : M.Allowed good t as) : M.Allowed good s (a :: as) := by
  refine ⟨hgood, ?_⟩
  intro u hu
  rw [hstep, Option.some.injEq] at hu
  subst hu
  exact h

/-- A list of actions can be checked against a condition that can be decided. -/
def decideAllowed [∀ s a, Decidable (good s a)] : ∀ s as, Decidable (M.Allowed good s as)
  | _, [] => isTrue trivial
  | s, a :: as =>
      have : ∀ t, Decidable (M.Allowed good t as) := fun t => decideAllowed t as
      inferInstanceAs (Decidable (good s a ∧ ∀ t, M.step s a = some t → M.Allowed good t as))

instance [∀ s a, Decidable (good s a)] (s : σ) (as : List α) : Decidable (M.Allowed good s as) :=
  decideAllowed s as

theorem allowed_of_forall {s : σ} {as : List α} (h : ∀ t, ∀ a ∈ as, good t a) :
    M.Allowed good s as := by
  induction as generalizing s with
  | nil => trivial
  | cons a as ih =>
      exact ⟨h s a List.mem_cons_self, fun _ _ => ih fun t b hb => h t b (List.mem_cons_of_mem a hb)⟩

theorem allowed_anyStep (s : σ) (as : List α) : M.Allowed anyStep s as :=
  allowed_of_forall fun _ _ _ => trivial

theorem path_of_exec (as : List α) {s t : σ} (h : M.exec s as = some t) : M.Path anyStep s t :=
  path_of_allowed as (allowed_anyStep s as) h

end System

end Transition
end HermesPlatform
