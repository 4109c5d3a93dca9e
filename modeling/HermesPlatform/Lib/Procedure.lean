/-
  HermesPlatform.Lib.Procedure

  Procedures with a state that may raise, and rules for what they ensure.

  The state stays as it is where an exception is raised.  `Ensures P x Q R`: from a
  state in which `P` holds, `x` ends in one in which `Q` holds of the value it returns,
  or `R` of the exception it raises.
-/

import Mathlib.Logic.Basic

namespace HermesPlatform

/-- A computation that changes a state, and returns a value or raises an exception. -/
abbrev Procedure (σ ε α : Type) := ExceptT ε (StateM σ) α

namespace Procedure

variable {σ ε ε' α β : Type}

/-- The result, and the state at the end. -/
def exec (x : Procedure σ ε α) (s : σ) : Except ε α × σ := x.run.run s

/-- What another procedure or a called function has returned or raised. -/
def ofExcept (wrap : ε' → ε) : Except ε' α → Procedure σ ε α
  | .ok a => pure a
  | .error e => throw (wrap e)

/-- Raises unless the condition holds. -/
def require (condition : Bool) (e : ε) : Procedure σ ε Unit :=
  if condition then pure () else throw e

/-- `try: x except: handler`; what the handler raises is not caught. -/
def catching (x : Procedure σ ε α) (handler : ε → Procedure σ ε' α) : Procedure σ ε' α :=
  ExceptT.mk fun s =>
    match x.exec s with
    | (.ok a, s') => (.ok a, s')
    | (.error e, s') => (handler e).exec s'

theorem exec_bind (x : Procedure σ ε α) (f : α → Procedure σ ε β) (s : σ) :
    (x >>= f).exec s =
      match x.exec s with
      | (.ok a, s') => (f a).exec s'
      | (.error e, s') => (.error e, s') := by
  simp only [exec, ExceptT.run_bind, StateT.run_bind]
  rcases x.run.run s with ⟨_ | _, _⟩ <;> rfl

def Ensures (P : σ → Prop) (x : Procedure σ ε α) (Q : α → σ → Prop) (R : ε → σ → Prop) :
    Prop :=
  ∀ s, P s →
    match x.exec s with
    | (.ok a, s') => Q a s'
    | (.error e, s') => R e s'

variable {P P' : σ → Prop} {Q Q' : α → σ → Prop} {R R' : ε → σ → Prop}

theorem Ensures.weaken {x : Procedure σ ε α} (h : Ensures P x Q R)
    (hpre : ∀ s, P' s → P s) (hpost : ∀ a s, Q a s → Q' a s)
    (hraised : ∀ e s, R e s → R' e s) : Ensures P' x Q' R' := by
  intro s hs
  have hx := h s (hpre s hs)
  split at hx
  · exact hpost _ _ hx
  · exact hraised _ _ hx

theorem Ensures.pure {a : α} (h : ∀ s, P s → Q a s) :
    Ensures P (Pure.pure a : Procedure σ ε α) Q R :=
  fun s hs => h s hs

theorem Ensures.throw {e : ε} (h : ∀ s, P s → R e s) :
    Ensures P (MonadExcept.throw e : Procedure σ ε α) Q R :=
  fun s hs => h s hs

theorem Ensures.bind {x : Procedure σ ε α} {f : α → Procedure σ ε β} {M : α → σ → Prop}
    {Q : β → σ → Prop} (hx : Ensures P x M R)
    (hf : ∀ a, Ensures (M a) (f a) Q R) : Ensures P (x >>= f) Q R := by
  intro s hs
  have hfirst := hx s hs
  rw [exec_bind]
  rcases hrun : x.exec s with ⟨e | a, s'⟩ <;> rw [hrun] at hfirst
  · exact hfirst
  · exact hf a s' hfirst

theorem Ensures.modify {f : σ → σ} {Q : Unit → σ → Prop} (h : ∀ s, P s → Q () (f s)) :
    Ensures P (modify f : Procedure σ ε Unit) Q R :=
  fun s hs => h s hs

/-- The state is read. -/
theorem Ensures.get {Q : σ → σ → Prop} (h : ∀ s, P s → Q s s) :
    Ensures P (get : Procedure σ ε σ) Q R :=
  fun s hs => h s hs

theorem Ensures.ofExcept {wrap : ε' → ε} {r : Except ε' α} (hok : ∀ a s, r = .ok a → P s → Q a s)
    (herror : ∀ e s, r = .error e → P s → R (wrap e) s) :
    Ensures P (Procedure.ofExcept wrap r) Q R := by
  cases r with
  | ok a => exact .pure fun s hs => hok a s rfl hs
  | error e => exact .throw fun s hs => herror e s rfl hs

theorem Ensures.require {condition : Bool} {e : ε} {Q : Unit → σ → Prop}
    (hok : ∀ s, condition = true → P s → Q () s)
    (herror : ∀ s, condition = false → P s → R e s) :
    Ensures P (Procedure.require condition e) Q R := by
  cases condition with
  | true => exact .pure fun s hs => hok s rfl hs
  | false => exact .throw fun s hs => herror s rfl hs

theorem Ensures.catching {x : Procedure σ ε α} {handler : ε → Procedure σ ε' α}
    {M : ε → σ → Prop} {R' : ε' → σ → Prop} (hx : Ensures P x Q M)
    (hhandler : ∀ e, Ensures (M e) (handler e) Q R') :
    Ensures P (Procedure.catching x handler) Q R' := by
  intro s hs
  have hfirst := hx s hs
  have hexec : (Procedure.catching x handler).exec s =
      match x.exec s with
      | (.ok a, s') => (.ok a, s')
      | (.error e, s') => (handler e).exec s' := rfl
  rw [hexec]
  rcases hrun : x.exec s with ⟨e | a, s'⟩ <;> rw [hrun] at hfirst
  · exact hhandler e s' hfirst
  · exact hfirst

end Procedure
end HermesPlatform
