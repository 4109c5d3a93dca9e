/-
  HermesPlatform.Lib.RefCount

  Counting the holders of a resource.

  `updateAll f ks m` visits the keys `ks` of a map one after the other; where no key
  is visited twice every visit sees the map as it was (`updateAll_apply`).
  `holders` is the number of objects that hold a key; it changes by one where one
  object is added (`holders_concat`) or replaced by one that holds nothing
  (`holders_set`).
-/

import Mathlib.Data.List.Nodup
import Mathlib.Logic.Function.Basic

namespace HermesPlatform
namespace RefCount

/-! ## Visiting keys -/

section UpdateAll

variable {κ β : Type} [DecidableEq κ]

/-- `for k in ks: m[k] = f(k, m[k])`. -/
def updateAll (f : κ → β → β) (ks : List κ) (m : κ → β) : κ → β :=
  ks.foldl (fun m k => Function.update m k (f k (m k))) m

theorem updateAll_cons (f : κ → β → β) (k : κ) (ks : List κ) (m : κ → β) :
    updateAll f (k :: ks) m = updateAll f ks (Function.update m k (f k (m k))) := rfl

theorem updateAll_of_notMem {f : κ → β → β} {ks : List κ} {m : κ → β} {k : κ} (h : k ∉ ks) :
    updateAll f ks m k = m k := by
  induction ks generalizing m with
  | nil => rfl
  | cons j ks ih =>
      rw [List.mem_cons, not_or] at h
      rw [updateAll_cons, ih h.2, Function.update_of_ne h.1]

theorem updateAll_of_mem {f : κ → β → β} {ks : List κ} (hnodup : ks.Nodup) {m : κ → β} {k : κ}
    (h : k ∈ ks) : updateAll f ks m k = f k (m k) := by
  induction ks generalizing m with
  | nil => cases h
  | cons j ks ih =>
      rw [List.nodup_cons] at hnodup
      rw [updateAll_cons]
      rcases List.mem_cons.mp h with rfl | hk
      · -- The other visits leave the first key alone.
        rw [updateAll_of_notMem hnodup.1, Function.update_self]
      · have hne : k ≠ j := fun heq => hnodup.1 (heq ▸ hk)
        rw [ih hnodup.2 hk, Function.update_of_ne hne]

theorem updateAll_apply (f : κ → β → β) {ks : List κ} (hnodup : ks.Nodup) (m : κ → β) (k : κ) :
    updateAll f ks m k = if k ∈ ks then f k (m k) else m k := by
  by_cases h : k ∈ ks
  · rw [if_pos h, updateAll_of_mem hnodup h]
  · rw [if_neg h, updateAll_of_notMem h]

end UpdateAll

/-! ## Holders -/

section Holders

variable {κ α : Type} (holds : α → κ → Bool)

/-- How many objects hold the key. -/
def holders (objects : List α) (k : κ) : Nat := objects.countP (holds · k)

theorem holders_concat (objects : List α) (a : α) (k : κ) :
    holders holds (objects ++ [a]) k = holders holds objects k + if holds a k then 1 else 0 := by
  rw [holders, List.countP_append, List.countP_singleton, holders]

/-- One object is replaced by one that does not hold the key. -/
theorem holders_set {objects : List α} {i : Nat} {a a' : α} {k : κ} (hi : objects[i]? = some a)
    (h : holds a' k = false) :
    holders holds (objects.set i a') k = holders holds objects k - if holds a k then 1 else 0 := by
  obtain ⟨hlt, rfl⟩ := List.getElem?_eq_some_iff.mp hi
  rw [holders, List.countP_set hlt, h, if_neg Bool.false_ne_true, Nat.add_zero, holders]

end Holders

end RefCount
end HermesPlatform
