/-
  HermesPlatform.Lib.SortedSet

  Redis sorted sets: members with scores, and the commands on them.

  `ZPOPMIN` takes a member of least score, and of these the least one.
-/

import Mathlib.Data.List.MinMax
import Mathlib.Data.Prod.Lex

namespace HermesPlatform
namespace SortedSet

variable {κ σ : Type} [LinearOrder κ]

/-! ## Commands -/

/-- `ZADD key NX score member`. -/
def zaddNx (member : κ) (score : σ) (set : List (κ × σ)) : List (κ × σ) :=
  if member ∈ set.map Prod.fst then set else set ++ [(member, score)]

/-- `ZREM key member`. -/
def zrem (member : κ) (set : List (κ × σ)) : List (κ × σ) := set.filter (·.1 ≠ member)

/-- The member that is first in the order of the set. -/
def first [LinearOrder σ] (set : List (κ × σ)) : Option (κ × σ) :=
  set.argmin fun e => toLex (e.2, e.1)

/-- `ZPOPMIN key 1`: the member that is taken, and the rest. -/
def zpopmin [LinearOrder σ] (set : List (κ × σ)) : Option ((κ × σ) × List (κ × σ)) :=
  (first set).map fun e => (e, zrem e.1 set)

/-! ## Spec lemmas -/

variable {set rest : List (κ × σ)} {e : κ × σ}

theorem zaddNx_of_mem {member : κ} (score : σ) (h : member ∈ set.map Prod.fst) :
    zaddNx member score set = set := if_pos h

theorem zaddNx_of_not_mem {member : κ} (score : σ) (h : member ∉ set.map Prod.fst) :
    zaddNx member score set = set ++ [(member, score)] := if_neg h

variable [LinearOrder σ]

theorem zpopmin_eq_none : zpopmin set = none ↔ set = [] := by
  rw [zpopmin, Option.map_eq_none_iff, first, List.argmin_eq_none]

/-- No member has a smaller score than the one that is taken. -/
theorem zpopmin_eq_some (h : zpopmin set = some (e, rest)) :
    e ∈ set ∧ (∀ e' ∈ set, e.2 ≤ e'.2) ∧ rest = zrem e.1 set := by
  obtain ⟨e', he', heq⟩ := Option.map_eq_some_iff.mp h
  cases heq
  refine ⟨List.argmin_mem he', ?_, rfl⟩
  intro e' hmem
  have hle := List.le_of_mem_argmin hmem he'
  exact (Prod.Lex.toLex_le_toLex.mp hle).elim le_of_lt fun h => h.1.le

end SortedSet
end HermesPlatform
