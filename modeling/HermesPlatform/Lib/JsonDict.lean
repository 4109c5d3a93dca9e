/-
  HermesPlatform.Lib.JsonDict

  JSON values as a Python program holds them: objects are dicts and arrays are lists.

  `asDict` and `asList` read what has another type as empty, as in
  `v if isinstance(v, dict) else {}`.  The canonical texts of two objects are equal just
  when the values of each key are (`sortKeys_dict_iff`, `sortKeys_object_iff`).
-/

import HermesPlatform.Lib.Json
import HermesPlatform.Lib.Python

namespace HermesPlatform
namespace Json

open Python

/-! ## Reading -/

/-- `v if isinstance(v, dict) else {}`. -/
def asDict : Option Json → Dict String Json
  | some (.object members) => Dict.ofPairs members
  | _ => Dict.empty

/-- `v if isinstance(v, list) else []`. -/
def asList : Option Json → List Json
  | some (.array items) => items
  | _ => []

/-- What a value counts as in a condition of JavaScript. -/
def jsTruthy : Json → Bool
  | .null => false
  | .bool b => b
  | .int n => n ≠ 0
  | .float f => f.text ∉ ["0.0".toList, "-0.0".toList, "NaN".toList]
  | .string s => s ≠ ""
  | .array _ => true
  | .object _ => true

/-! ## Canonical texts -/

theorem sortItems_eq_map (items : List Json) : sortItems items = items.map sortKeys := by
  induction items with
  | nil => rfl
  | cons v items ih => rw [sortItems, ih, List.map_cons]

@[simp] theorem sortKeys_string (s : String) : sortKeys (.string s) = .string s := rfl

theorem sortKeys_array_iff {items items' : List Json} :
    sortKeys (.array items) = sortKeys (.array items') ↔
      items.map sortKeys = items'.map sortKeys := by
  rw [sortKeys, sortKeys, array.injEq, sortItems_eq_map, sortItems_eq_map]

/-- Dictionaries agree just when their values do, key by key. -/
theorem sortKeys_dict_iff {d e : Dict String Json} :
    sortKeys (.object d.entries) = sortKeys (.object e.entries) ↔
      ∀ k, (d.get? k).map sortKeys = (e.get? k).map sortKeys := by
  have hnodup (d : Dict String Json) :
      ((d.entries.map fun m => (m.1, sortKeys m.2)).map Prod.fst).Nodup := by
    rw [List.map_map]
    exact d.nodup
  have hperm := Dict.perm_iff_get? (d := ⟨_, hnodup d⟩) (e := ⟨_, hnodup e⟩)
  rw [sortKeys_perm_iff d.nodup, sortMembers_eq_map, sortMembers_eq_map, hperm]
  refine forall_congr' fun k => ?_
  rw [Dict.get?, Dict.lookup_map, Dict.get?, Dict.lookup_map]
  rfl

/-- Objects with the same keys agree just when their values do. -/
theorem sortKeys_object_iff {ms ms' : List (String × Json)}
    (hkeys : ms.map Prod.fst = ms'.map Prod.fst) (hnodup : (ms.map Prod.fst).Nodup) :
    sortKeys (.object ms) = sortKeys (.object ms') ↔
      ms.map (sortKeys ·.2) = ms'.map (sortKeys ·.2) := by
  refine ⟨?_, ?_⟩
  · intro h
    refine List.ext_getElem ?_ ?_
    · rw [List.length_map, List.length_map, ← List.length_map Prod.fst, hkeys, List.length_map]
    · intro i hi hi'
      rw [List.length_map] at hi hi'
      rw [List.getElem_map, List.getElem_map]
      have hkey : ms[i].1 = ms'[i].1 := by
        rw [← List.getElem_map Prod.fst, ← List.getElem_map Prod.fst, List.getElem_of_eq hkeys]
        rwa [List.length_map]
      have hmem : (ms'[i].1, ms[i].2) ∈ ms := by
        rw [← hkey]
        exact List.getElem_mem hi
      exact sortKeys_member (hkeys ▸ hnodup) h hmem (List.getElem_mem hi')
  · intro h
    have hmembers : sortMembers ms = sortMembers ms' := by
      rw [sortMembers_eq_map, sortMembers_eq_map]
      have hzip (l : List (String × Json)) :
          l.map (fun m => (m.1, sortKeys m.2)) = (l.map Prod.fst).zip (l.map (sortKeys ·.2)) :=
        List.zip_map'.symm
      rw [hzip, hzip, hkeys, h]
    rw [sortKeys, sortKeys, hmembers]

end Json
end HermesPlatform
