/-
  HermesPlatform.Lib.LockOrder

  Locks that are taken in increasing order.

  `Acquisition` is a user on its way through an increasing list of keys; that it
  is increasing is part of the structure.  When every user takes its locks so, no
  users wait for each other in a cycle.
-/

import Mathlib.Data.List.Pairwise
import Mathlib.Logic.Relation
import Mathlib.Order.Defs.LinearOrder

namespace HermesPlatform
namespace LockOrder

/-! ## Acquisitions -/

/-- The keys a user holds and the ones it is still going to take. -/
structure Acquisition (κ : Type) [LT κ] where
  held : List κ
  todo : List κ
  increasing : (held ++ todo).Pairwise (· < ·)

namespace Acquisition

variable {κ : Type} [LT κ]

def start (keys : List κ) (h : keys.Pairwise (· < ·)) : Acquisition κ := ⟨[], keys, h⟩

/-- The next key is taken. -/
def take (a : Acquisition κ) : Acquisition κ :=
  match h : a.todo with
  | [] => a
  | k :: rest => ⟨a.held ++ [k], rest, by
      have hall := a.increasing
      rw [h] at hall
      rwa [List.append_assoc]⟩

theorem take_eq {a : Acquisition κ} {k : κ} {rest : List κ} (h : a.todo = k :: rest) :
    a.take.held = a.held ++ [k] ∧ a.take.todo = rest := by
  unfold take
  split
  · rename_i hnil
    rw [h] at hnil
    cases hnil
  · rename_i k' rest' hcons
    rw [h] at hcons
    cases hcons
    exact ⟨rfl, rfl⟩

theorem take_keys (a : Acquisition κ) : a.take.held ++ a.take.todo = a.held ++ a.todo := by
  cases h : a.todo with
  | nil =>
      unfold take
      split
      · rw [h]
      · rename_i k rest hcons
        rw [h] at hcons
        cases hcons
  | cons k rest =>
      obtain ⟨hheld, htodo⟩ := take_eq h
      rw [hheld, htodo, List.append_assoc]
      rfl

/-- The next key is above all keys that are held. -/
theorem held_lt {a : Acquisition κ} {k k' : κ} {rest : List κ} (h : a.todo = k :: rest)
    (hk : k' ∈ a.held) : k' < k := by
  have hall := a.increasing
  rw [h] at hall
  exact (List.pairwise_append.mp hall).2.2 k' hk k List.mem_cons_self

end Acquisition

/-! ## Waiting -/

/-- Who holds which key, and who waits for which. -/
structure Locks (ι κ : Type) where
  holds : ι → κ → Prop
  waits : ι → κ → Prop

namespace Locks

variable {ι κ : Type} (L : Locks ι κ)

/-- The user `i` waits for a key that `j` holds. -/
def WaitsFor (i j : ι) : Prop := ∃ k, L.waits i k ∧ L.holds j k

/-- A user waits for a key above all those it holds. -/
def Increasing [LT κ] : Prop := ∀ i k k', L.waits i k → L.holds i k' → k' < k

variable {L}

/-- Along a chain of waiting users the keys they wait for go up. -/
theorem chain_increasing [Preorder κ] (h : L.Increasing) {i j : ι}
    (hchain : Relation.TransGen L.WaitsFor i j) :
    ∃ k, L.waits i k ∧ ∀ k', L.waits j k' → k < k' := by
  induction hchain with
  | single hij =>
      obtain ⟨k, hwait, hhold⟩ := hij
      exact ⟨k, hwait, fun k' hwait' => h _ k' k hwait' hhold⟩
  | tail _ hjl ih =>
      obtain ⟨k, hwait, hup⟩ := ih
      obtain ⟨k₁, hwait₁, hhold₁⟩ := hjl
      exact ⟨k, hwait, fun k' hwait' => lt_trans (hup k₁ hwait₁) (h _ k' k₁ hwait' hhold₁)⟩

/-- **No deadlock.** No user waits for itself through others. -/
theorem no_cycle [Preorder κ] (h : L.Increasing) (i : ι) : ¬ Relation.TransGen L.WaitsFor i i := by
  intro hcycle
  obtain ⟨k, hwait, hup⟩ := chain_increasing h hcycle
  exact lt_irrefl k (hup k hwait)

end Locks

end LockOrder
end HermesPlatform
