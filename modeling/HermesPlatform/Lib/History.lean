/-
  HermesPlatform.Lib.History

  What a history says by now.  A history is a list of events, the last one first.

  `Since p q`: there was a `p`, and no `q` after it.  It is decided event by event, so a store that
  is changed along with its history holds what the history says if every change agrees with one
  event (`since_cons`).
-/

import Mathlib.Data.List.Basic

namespace HermesPlatform
namespace History

variable {ε : Type} {p q : ε → Prop} {e : ε} {events earlier : List ε}

/-- There was a `p`, and no `q` after it. -/
def Since (p q : ε → Prop) : List ε → Prop
  | [] => False
  | e :: earlier => p e ∨ ¬ q e ∧ Since p q earlier

theorem since_cons : Since p q (e :: earlier) ↔ p e ∨ ¬ q e ∧ Since p q earlier := Iff.rfl

theorem since_of_start (h : p e) : Since p q (e :: earlier) := .inl h

theorem since_of_end (hp : ¬ p e) (hq : q e) : ¬ Since p q (e :: earlier) := by
  rintro (h | ⟨h, -⟩)
  · exact hp h
  · exact h hq

/-- An event that neither starts nor ends it. -/
theorem since_of_neither (hp : ¬ p e) (hq : ¬ q e) :
    Since p q (e :: earlier) ↔ Since p q earlier := by
  rw [since_cons, or_iff_right hp, and_iff_right hq]

/-- What has not started since does not hold later. -/
theorem not_since_append {later : List ε} (h : ¬ Since p q events) (hlater : ∀ e ∈ later, ¬ p e) :
    ¬ Since p q (later ++ events) := by
  induction later with
  | nil => exact h
  | cons e later ih =>
      obtain ⟨he, hlater⟩ := List.forall_mem_cons.mp hlater
      rintro (hp | ⟨-, hsince⟩)
      · exact he hp
      · exact ih hlater hsince

end History
end HermesPlatform
