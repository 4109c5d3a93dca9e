/-
  HermesPlatform.Lib.SortedBy

  Lists sorted by a key that several elements may share.

  Elements with one key come in any order, so what holds of every sorted list is what holds
  of each two elements, in whichever order their keys allow.
-/

import Mathlib.Data.List.Nodup
import Mathlib.Data.List.Perm.Subperm

namespace HermesPlatform
namespace SortedBy

variable {α : Type} {key : α → Nat} {R : α → α → Prop} {l : List α}

/-- A list of the elements of `l` that is sorted by the key. -/
structure Sorted (key : α → Nat) (l sorted : List α) : Prop where
  perm : sorted.Perm l
  pairwise : sorted.Pairwise (key · ≤ key ·)

/-- Two elements stand in any order that their keys allow. -/
theorem exists_sorted {a b : α} (ha : a ∈ l) (hb : b ∈ l) (hne : a ≠ b) (hkey : key a ≤ key b) :
    ∃ sorted, Sorted key l sorted ∧ List.Sublist [a, b] sorted := by
  have hpair : [a, b].Nodup := by
    rw [List.nodup_cons, List.mem_singleton]
    exact ⟨hne, List.nodup_singleton b⟩
  have hsubset : [a, b] ⊆ l := by
    rw [List.cons_subset, List.cons_subset]
    exact ⟨ha, hb, List.nil_subset l⟩
  obtain ⟨l', hperm, hsublist⟩ := List.subperm_iff.mp (hpair.subperm hsubset)
  have htrans : ∀ a b c : α, decide (key a ≤ key b) = true → decide (key b ≤ key c) = true →
      decide (key a ≤ key c) = true := by
    intro a b c hab hbc
    rw [decide_eq_true_eq] at hab hbc ⊢
    exact Nat.le_trans hab hbc
  have htotal : ∀ a b : α, (decide (key a ≤ key b) || decide (key b ≤ key a)) = true := by
    intro a b
    rw [Bool.or_eq_true, decide_eq_true_eq, decide_eq_true_eq]
    exact Nat.le_total _ _
  refine ⟨l'.mergeSort fun a b => decide (key a ≤ key b), ⟨?_, ?_⟩, ?_⟩
  · exact (List.mergeSort_perm l' _).trans hperm
  · exact (List.pairwise_mergeSort htrans htotal l').imp fun h => decide_eq_true_eq.mp h
  · exact List.pair_sublist_mergeSort htrans htotal (decide_eq_true hkey) hsublist

/-- **What holds of every sorted list.** -/
theorem forall_sorted_iff (hnodup : l.Nodup) :
    (∀ sorted, Sorted key l sorted → sorted.Pairwise R) ↔
      ∀ a ∈ l, ∀ b ∈ l, a ≠ b → key a ≤ key b → R a b := by
  constructor
  · intro h a ha b hb hne hkey
    obtain ⟨sorted, hsorted, hsublist⟩ := exists_sorted ha hb hne hkey
    exact List.pairwise_iff_forall_sublist.mp (h sorted hsorted) hsublist
  · intro h sorted hsorted
    rw [List.pairwise_iff_forall_sublist]
    intro a b hsublist
    have hpair := (hsorted.perm.nodup_iff.mpr hnodup).sublist hsublist
    have hmem := hsublist.subset
    refine h a (hsorted.perm.mem_iff.mp (hmem List.mem_cons_self)) b ?_ ?_ ?_
    · exact hsorted.perm.mem_iff.mp (hmem (List.mem_cons_of_mem _ List.mem_cons_self))
    · rintro rfl
      exact (List.nodup_cons.mp hpair).1 List.mem_cons_self
    · exact List.pairwise_iff_forall_sublist.mp hsorted.pairwise hsublist

end SortedBy
end HermesPlatform
