/-
  HermesPlatform.Lib.Parties

  Parties that are kept in a list, each at a place of its own, and what only one
  of them can hold.
-/

import Mathlib.Data.List.Basic

namespace HermesPlatform
namespace Parties

variable {α κ : Type} {l : List α} {i j : Nat} {a a' b : α}

/-! ## Places -/

theorem getElem?_set_cases (h : (l.set i a)[j]? = some b) :
    i = j ∧ b = a ∨ i ≠ j ∧ l[j]? = some b := by
  rw [List.getElem?_set] at h
  split at h
  · rename_i heq
    split at h
    · cases h
      exact .inl ⟨heq, rfl⟩
    · cases h
  · rename_i hne
    exact .inr ⟨hne, h⟩

theorem getElem?_append_cases (h : (l ++ [a])[j]? = some b) : l[j]? = some b ∨ b = a := by
  rw [List.getElem?_append] at h
  split at h
  · exact .inl h
  · rw [List.getElem?_singleton] at h
    split at h
    · cases h
      exact .inr rfl
    · cases h

/-- One place of a list changes, and a count with it. -/
theorem countP_set (p : α → Bool) (hget : l[i]? = some a) (a' : α) :
    (l.set i a').countP p + (if p a then 1 else 0) = l.countP p + if p a' then 1 else 0 := by
  induction l generalizing i with
  | nil => simp at hget
  | cons b l ih =>
      cases i with
      | zero =>
          obtain rfl : b = a := by simpa using hget
          simp only [List.set_cons_zero, List.countP_cons]
          omega
      | succ i =>
          have hrest := ih (by simpa using hget)
          simp only [List.set_cons_succ, List.countP_cons]
          omega

/-- Where the old value at a place is fine, all are afterwards if the new value is. -/
theorem forall_mem_set_iff {P : α → Prop} (hget : l[i]? = some a) (ha : P a) :
    (∀ x ∈ l.set i a', P x) ↔ (∀ x ∈ l, P x) ∧ P a' := by
  have hlt : i < l.length := (List.getElem?_eq_some_iff.mp hget).1
  constructor
  · intro h
    refine ⟨?_, h a' (List.mem_set hlt a')⟩
    intro x hx
    obtain ⟨j, hj⟩ := List.mem_iff_getElem?.mp hx
    by_cases hij : i = j
    · rw [← hij, hget, Option.some.injEq] at hj
      exact hj ▸ ha
    · refine h x (List.mem_of_getElem? (i := j) ?_)
      rw [List.getElem?_set_ne hij]
      exact hj
  · rintro ⟨hold, hnew⟩ x hx
    obtain hx | rfl := List.mem_or_eq_of_mem_set hx
    · exact hold x hx
    · exact hnew

theorem forall_mem_set {P : α → Prop} (h : ∀ x ∈ l, P x) (hnew : P a') :
    ∀ x ∈ l.set i a', P x := by
  intro x hx
  obtain hx | rfl := List.mem_or_eq_of_mem_set hx
  · exact h x hx
  · exact hnew

/-- What some place has, some place has afterwards, if the one that changes keeps it. -/
theorem exists_mem_set {P : α → Prop} (hget : l[i]? = some a) (h : ∃ x ∈ l, P x)
    (hnew : P a → P a') : ∃ x ∈ l.set i a', P x := by
  obtain ⟨x, hx, hP⟩ := h
  obtain ⟨j, hj⟩ := List.mem_iff_getElem?.mp hx
  by_cases hij : i = j
  · rw [← hij, hget, Option.some.injEq] at hj
    subst hj
    exact ⟨a', List.mem_set (List.getElem?_eq_some_iff.mp hget).1 a', hnew hP⟩
  · refine ⟨x, List.mem_of_getElem? (i := j) ?_, hP⟩
    rw [List.getElem?_set_ne hij]
    exact hj

/-! ## Exclusive holding -/

variable {holds : α → κ → Prop} {k : κ}

/-- No two parties hold the same. -/
def Exclusive (holds : α → κ → Prop) (l : List α) : Prop :=
  ∀ (i j : Nat) (a b : α) (k : κ), l[i]? = some a → l[j]? = some b → holds a k → holds b k → i = j

/-- No party but the one at place `i` holds it. -/
def FreeFor (holds : α → κ → Prop) (l : List α) (i : Nat) (k : κ) : Prop :=
  ∀ (j : Nat) (b : α), i ≠ j → l[j]? = some b → ¬ holds b k

theorem freeFor_of_all {p : α → Bool} (h : (l.eraseIdx i).all p = true)
    (hp : ∀ b, p b = true → ¬ holds b k) : FreeFor holds l i k := by
  intro j b hne hget
  have hmem : b ∈ l.eraseIdx i := List.mem_eraseIdx_iff_getElem?.mpr ⟨j, hne.symm, hget⟩
  exact hp b (List.all_eq_true.mp h b hmem)

theorem Exclusive.nil : Exclusive holds [] := by
  intro i j a b k hi
  simp at hi

/-- What a party holds is free for it. -/
theorem Exclusive.freeFor (h : Exclusive holds l) (hget : l[i]? = some a) (hk : holds a k) :
    FreeFor holds l i k := fun j b hne hj hb => hne (h i j a b k hget hj hk hb)

/-- One party changes: what it holds afterwards it held before or was free. -/
theorem Exclusive.set (h : Exclusive holds l) (hget : l[i]? = some a)
    (hnew : ∀ k, holds a' k → holds a k ∨ FreeFor holds l i k) : Exclusive holds (l.set i a') := by
  have hfree : ∀ k, holds a' k → FreeFor holds l i k := fun k hk =>
    (hnew k hk).elim (h.freeFor hget) id
  intro m n b c k hm hn hb hc
  rcases getElem?_set_cases hm with ⟨rfl, rfl⟩ | ⟨hnem, hm'⟩ <;>
    rcases getElem?_set_cases hn with ⟨rfl, rfl⟩ | ⟨hnen, hn'⟩
  · rfl
  · exact absurd hc (hfree k hb n c hnen hn')
  · exact absurd hb (hfree k hc m b hnem hm')
  · exact h m n b c k hm' hn' hb hc

/-- A new party holds nothing. -/
theorem Exclusive.append (h : Exclusive holds l) (hnone : ∀ k, ¬ holds a k) :
    Exclusive holds (l ++ [a]) := by
  intro m n b c k hm hn hb hc
  rcases getElem?_append_cases hm with hm | rfl
  · rcases getElem?_append_cases hn with hn | rfl
    · exact h m n b c k hm hn hb hc
    · exact absurd hc (hnone k)
  · exact absurd hb (hnone k)

end Parties
end HermesPlatform
