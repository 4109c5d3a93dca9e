/-
  HermesPlatform.Lib.Expiring

  Maps whose entries have a deadline.

  An entry is read as long as its deadline is one that the reader takes for a later time.  Readers
  may differ in this, as two clocks do; they read the same but for the deadlines they differ in
  (`read_eq_iff`).
-/

import Mathlib.Data.Option.Basic
import Mathlib.Logic.Function.Basic

namespace HermesPlatform
namespace Expiring

variable {κ β : Type}

structure Entry (β : Type) where
  value : β
  deadline : Nat

/-- A map from keys to entries. -/
abbrev Map (κ β : Type) := κ → Option (Entry β)

def empty : Map κ β := fun _ => none

def put [DecidableEq κ] (k : κ) (e : Entry β) (m : Map κ β) : Map κ β :=
  Function.update m k (some e)

/-- Takes away the entries of a scope. -/
def erase (scope : κ → Bool) (m : Map κ β) : Map κ β := fun k => if scope k then none else m k

/-- What is read under a key by a reader for whom some deadlines are still ahead. -/
def read (ahead : Nat → Bool) (m : Map κ β) (k : κ) : Option β :=
  ((m k).filter fun e => ahead e.deadline).map Entry.value

variable {ahead ahead' : Nat → Bool} {m : Map κ β} {k : κ}

theorem put_self [DecidableEq κ] (k : κ) (e : Entry β) : put k e m k = some e := by
  rw [put, Function.update_self]

theorem put_of_ne [DecidableEq κ] {k' : κ} (e : Entry β) (h : k' ≠ k) : put k e m k' = m k' := by
  rw [put, Function.update_of_ne h]

theorem erase_of_mem {scope : κ → Bool} (h : scope k = true) : erase scope m k = none := if_pos h

theorem erase_of_not_mem {scope : κ → Bool} (h : scope k = false) : erase scope m k = m k :=
  if_neg (by rw [h]; decide)

/-- Readers agree on a key exactly if they agree on its deadline. -/
theorem read_eq_iff : read ahead m k = read ahead' m k ↔
    ∀ e, m k = some e → ahead e.deadline = ahead' e.deadline := by
  rw [read, read]
  cases hm : m k with
  | none => exact iff_of_true rfl nofun
  | some e =>
      have hall : (∀ e', some e = some e' → ahead e'.deadline = ahead' e'.deadline) ↔
          ahead e.deadline = ahead' e.deadline := by
        simp only [Option.some.injEq, forall_eq']
      rw [Option.filter_some, Option.filter_some, hall]
      cases ahead e.deadline <;> cases ahead' e.deadline <;> simp

end Expiring
end HermesPlatform
