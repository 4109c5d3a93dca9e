/-
  HermesPlatform.Lib.Paging

  Reading a log by pages: a page holds what a filter keeps of the next entries behind a
  cursor, and the cursor moves to the last entry that was kept.

  The keys of the log increase, so a cursor cuts it in two.  A page can be empty although
  the filter keeps later entries: it is so when as many others come first.
-/

import Mathlib.Data.List.Basic
import Mathlib.Data.List.TakeWhile
import Mathlib.Order.Lattice

namespace HermesPlatform
namespace Paging

variable {ε κ : Type} [LinearOrder κ] (key : ε → κ) (keep : ε → Bool)

/-- The entries behind a cursor; without one, all. -/
def behind (cursor : Option κ) (log : List ε) : List ε :=
  log.filter fun e => cursor.all fun c => decide (c < key e)

/-- What a page holds. -/
def page (cursor : Option κ) (count : Nat) (log : List ε) : List ε :=
  ((behind key cursor log).take count).filter keep

/-- The others that come before the first entry that is kept. -/
def gap (entries : List ε) : Nat := (entries.takeWhile (!keep ·)).length

/-- The cursor cuts the log behind `front`. -/
structure At (cursor : Option κ) (log front rest : List ε) : Prop where
  log_eq : log = front ++ rest
  behind_eq : behind key cursor log = rest
  /-- The cursor is the key of an entry. -/
  cursor_mem : ∀ c ∈ cursor, ∃ e ∈ log, key e = c

variable {key keep} {cursor : Option κ} {log front rest : List ε} {count : Nat}

theorem at_start (log : List ε) : At key none log [] log := by
  refine ⟨rfl, ?_, nofun⟩
  exact List.filter_eq_self.mpr fun _ _ => rfl

/-- An entry of the log, as a cursor. -/
theorem at_entry (hsorted : log.Pairwise fun a b => key a < key b) {e : ε}
    (h : log = front ++ e :: rest) : At key (some (key e)) log (front ++ [e]) rest := by
  subst h
  obtain ⟨-, hrest, hfront⟩ := List.pairwise_append.mp hsorted
  have hbehind := (List.pairwise_cons.mp hrest).1
  refine ⟨by rw [List.append_assoc]; rfl, ?_, ?_⟩
  · have hnone : front.filter (fun a => decide (key e < key a)) = [] := by
      refine List.filter_eq_nil_iff.mpr fun a ha => ?_
      rw [decide_eq_true_eq]
      exact not_lt_of_gt (hfront a ha e List.mem_cons_self)
    have hall : rest.filter (fun a => decide (key e < key a)) = rest :=
      List.filter_eq_self.mpr fun a ha => decide_eq_true (hbehind a ha)
    simp only [behind, Option.all_some, List.filter_append, hnone, List.nil_append]
    rw [List.filter_cons_of_neg (by simp), hall]
  · intro c hc
    cases hc
    exact ⟨e, List.mem_append_right _ List.mem_cons_self, rfl⟩

/-- A new entry comes behind the cursor. -/
theorem At.append (h : At key cursor log front rest) {e : ε} (he : ∀ a ∈ log, key a < key e) :
    At key cursor (log ++ [e]) front (rest ++ [e]) := by
  refine ⟨by rw [h.log_eq, List.append_assoc], ?_, ?_⟩
  · have hcursor : cursor.all (fun c => decide (c < key e)) = true := by
      rw [Option.all_eq_true]
      intro c hc
      obtain ⟨a, ha, rfl⟩ := h.cursor_mem c hc
      exact decide_eq_true (he a ha)
    have hlog := h.behind_eq
    have hnew : behind key cursor [e] = [e] := List.filter_eq_self.mpr fun a ha => by
      rw [List.mem_singleton.mp ha]
      exact hcursor
    rw [behind] at hlog hnew ⊢
    rw [List.filter_append, hlog, hnew]
  · intro c hc
    obtain ⟨a, ha, hkey⟩ := h.cursor_mem c hc
    exact ⟨a, List.mem_append_left _ ha, hkey⟩

/-- **A page that is not empty**: the cursor moves behind what the page holds. -/
theorem At.page (h : At key cursor log front rest)
    (hsorted : log.Pairwise fun a b => key a < key b) {e : ε}
    (hlast : (page key keep cursor count log).getLast? = some e) :
    ∃ front' rest', At key (some (key e)) log front' rest' ∧
      front'.filter keep = front.filter keep ++ page key keep cursor count log := by
  obtain ⟨kept, hkept⟩ := List.getLast?_eq_some_iff.mp hlast
  have hwindow : (rest.take count).filter keep = kept ++ [e] := by
    rw [← hkept, Paging.page, h.behind_eq]
  obtain ⟨early, late, htake, hearly, hlate⟩ := List.filter_eq_append_iff.mp hwindow
  obtain ⟨others, later, rfl, hothers, he, hlater⟩ := List.filter_eq_cons_iff.mp hlate
  have hnone : others.filter keep = [] := List.filter_eq_nil_iff.mpr hothers
  have hlog : log = (front ++ (early ++ others)) ++ e :: (later ++ rest.drop count) := by
    have hrest : rest = (early ++ (others ++ e :: later)) ++ rest.drop count := by
      rw [← htake, List.take_append_drop]
    rw [h.log_eq]
    conv_lhs => rw [hrest]
    simp only [List.append_assoc, List.cons_append]
  refine ⟨_, _, at_entry hsorted hlog, ?_⟩
  rw [hkept, List.filter_append, List.filter_append, List.filter_append, hearly, hnone,
    List.append_nil, List.filter_cons_of_pos he, List.filter_nil, List.append_assoc]

/-- **A page is empty** if and only if nothing is left to keep, or too many others come
    first. -/
theorem page_eq_nil :
    page key keep cursor count log = [] ↔
      (behind key cursor log).filter keep = [] ∨ count ≤ gap keep (behind key cursor log) := by
  rw [Paging.page]
  generalize behind key cursor log = entries
  induction entries generalizing count with
  | nil => exact iff_of_true (by rw [List.take_nil]; rfl) (.inl rfl)
  | cons a entries ih =>
      cases count with
      | zero => exact iff_of_true rfl (.inr (Nat.zero_le _))
      | succ count =>
          rw [List.take_succ_cons, gap]
          by_cases ha : keep a = true
          · rw [List.filter_cons_of_pos ha, List.filter_cons_of_pos ha,
              List.takeWhile_cons_of_neg (by simp [ha])]
            refine iff_of_false (List.cons_ne_nil _ _) ?_
            rintro (h | h)
            · exact List.cons_ne_nil _ _ h
            · exact Nat.not_succ_le_zero count h
          · rw [List.filter_cons_of_neg ha, List.filter_cons_of_neg ha,
              List.takeWhile_cons_of_pos (by simp [ha]), ih, List.length_cons,
              Nat.succ_le_succ_iff]
            rfl

end Paging
end HermesPlatform
