/-
  HermesPlatform.Lib.Exceptions

  What a program in `Except` raises.

  `Raises P x` says that `x` ends in an exception of the kind `P`.  It is taken apart along the
  program: at a sequence (`raises_bind`), a check (`raises_check`) and a handler
  (`raises_handled`).
-/

import HermesPlatform.Lib.Python

namespace HermesPlatform
namespace Exceptions

variable {ε α β : Type} {P : ε → Prop}

def Raises (P : ε → Prop) (x : Except ε α) : Prop := ∃ e, x = .error e ∧ P e

@[simp] theorem raises_ok (a : α) : ¬ Raises P (.ok a : Except ε α) := by
  rintro ⟨e, h, -⟩
  cases h

@[simp] theorem raises_pure (a : α) : ¬ Raises P (pure a : Except ε α) := raises_ok a

@[simp] theorem raises_error (e : ε) : Raises P (.error e : Except ε α) ↔ P e := by
  constructor
  · rintro ⟨e', h, he⟩
    cases h
    exact he
  · intro he
    exact ⟨e, rfl, he⟩

theorem raises_bind {x : Except ε α} {f : α → Except ε β} :
    Raises P (x >>= f) ↔ Raises P x ∨ ∃ a, x = .ok a ∧ Raises P (f a) := by
  cases x with
  | error e =>
      have herror : (Except.error e >>= f) = .error e := rfl
      rw [herror, raises_error, raises_error]
      simp
  | ok a =>
      have hok : (Except.ok a >>= f) = f a := rfl
      rw [hok]
      simp

/-- Raises the exception wherever the condition does not hold. -/
def check (condition : Bool) (e : ε) : Except ε Unit :=
  if condition then .ok () else .error e

/-- Behind a check that raises nothing of the kind. -/
theorem raises_check {condition : Bool} {e : ε} {f : Unit → Except ε α} (he : ¬ P e) :
    Raises P (check condition e >>= f) ↔ condition = true ∧ Raises P (f ()) := by
  rw [raises_bind]
  cases condition with
  | false => simp [check, he]
  | true =>
      constructor
      · rintro (h | ⟨⟨⟩, -, h⟩)
        · exact absurd h (raises_ok ())
        · exact ⟨rfl, h⟩
      · rintro ⟨-, h⟩
        exact .inr ⟨(), rfl, h⟩

theorem check_bind_eq_ok {condition : Bool} {e : ε} {f : Unit → Except ε α} {a : α} :
    (check condition e >>= f) = .ok a ↔ condition = true ∧ f () = .ok a := by
  rw [Python.bind_eq_ok]
  cases condition with
  | false => simp [check]
  | true =>
      constructor
      · rintro ⟨⟨⟩, -, h⟩
        exact ⟨rfl, h⟩
      · rintro ⟨-, h⟩
        exact ⟨(), rfl, h⟩

/-- `try: x except …: raise e`, with a test for what is caught. -/
def handled (caught : ε → Bool) (e : ε) : Except ε α → Except ε α
  | .ok a => .ok a
  | .error e' => if caught e' then .error e else .error e'

theorem handled_eq_ok {caught : ε → Bool} {e : ε} {x : Except ε α} {a : α} :
    handled caught e x = .ok a ↔ x = .ok a := by
  cases x with
  | ok b => rfl
  | error e' => cases h : caught e' <;> simp [handled, h]

/-- **A handler** lets through what it does not catch, where it raises nothing of the kind
    itself. -/
theorem raises_handled {caught : ε → Bool} {e : ε} (he : ¬ P e) {x : Except ε α} :
    Raises P (handled caught e x) ↔ Raises (fun e' => caught e' = false ∧ P e') x := by
  cases x with
  | ok a => simp [handled]
  | error e' => cases h : caught e' <;> simp [handled, h, he]

end Exceptions
end HermesPlatform
