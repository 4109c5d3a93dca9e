/-
  HermesPlatform.Lib.Incremental

  Readers of a stream that arrives in pieces.

  A `Reader` takes one item from the front of what has arrived, or waits.  It is `stable`: an item
  that has been read does not depend on what arrives later.  A loop that keeps the unread part in
  a buffer and drains it at every arrival then reads the same items however the stream has been
  cut (`drain_append`), and reads back what has been written item by item (`drain_flatMap`).

  `upTo d` is the reader of the texts that the delimiter `d` ends.
-/

import Mathlib.Data.List.Basic

namespace HermesPlatform
namespace Incremental

variable {α β γ : Type}

structure Reader (α β : Type) where
  /-- The first item and what is behind it; `none` as long as the item is incomplete. -/
  next : List α → Option (β × List α)
  shrinks : ∀ {xs b rest}, next xs = some (b, rest) → rest.length < xs.length
  stable : ∀ {xs b rest} ys, next xs = some (b, rest) → next (xs ++ ys) = some (b, rest ++ ys)

namespace Reader

variable (R : Reader α β)

/-- Up to so many items. -/
def take : Nat → List α → List β × List α
  | 0, xs => ([], xs)
  | n + 1, xs =>
      match R.next xs with
      | none => ([], xs)
      | some (b, rest) => (b :: (take n rest).1, (take n rest).2)

/-- All items that are complete, and the rest. -/
def drain (xs : List α) : List β × List α := R.take xs.length xs

variable {R} {xs rest : List α} {b : β}

theorem take_none (h : R.next xs = none) (n : Nat) : R.take n xs = ([], xs) := by
  cases n with
  | zero => rfl
  | succ n => rw [take, h]

/-- The bound does not matter when it is long enough. -/
theorem take_eq_drain (n : Nat) (xs : List α) (h : xs.length ≤ n) : R.take n xs = R.drain xs := by
  induction n using Nat.strongRecOn generalizing xs with
  | _ n ih =>
      cases hnext : R.next xs with
      | none => rw [take_none hnext, drain, take_none hnext]
      | some r =>
          obtain ⟨b, rest⟩ := r
          have hlt := R.shrinks hnext
          obtain ⟨n, rfl⟩ := Nat.exists_eq_succ_of_ne_zero (by omega : n ≠ 0)
          obtain ⟨m, hm⟩ := Nat.exists_eq_succ_of_ne_zero (by omega : xs.length ≠ 0)
          have hleft := ih n (by omega) rest (by omega)
          have hright := ih m (by omega) rest (by omega)
          rw [drain, hm, take, take, hnext]
          dsimp only
          rw [hleft, hright]

theorem drain_none (h : R.next xs = none) : R.drain xs = ([], xs) := take_none h _

theorem drain_some (h : R.next xs = some (b, rest)) :
    R.drain xs = (b :: (R.drain rest).1, (R.drain rest).2) := by
  have hlt := R.shrinks h
  obtain ⟨m, hm⟩ := Nat.exists_eq_succ_of_ne_zero (by omega : xs.length ≠ 0)
  rw [drain, hm, take, h]
  dsimp only
  rw [take_eq_drain m rest (by omega)]

/-- Induction along the items at the front. -/
theorem drain_induction {P : List α → Prop} (wait : ∀ xs, R.next xs = none → P xs)
    (item : ∀ xs b rest, R.next xs = some (b, rest) → P rest → P xs) (xs : List α) : P xs := by
  induction h : xs.length using Nat.strongRecOn generalizing xs with
  | _ n ih =>
      cases hnext : R.next xs with
      | none => exact wait xs hnext
      | some r => exact item xs r.1 r.2 hnext (ih _ (h ▸ R.shrinks hnext) r.2 rfl)

/-- What is left is incomplete. -/
theorem next_drain (xs : List α) : R.next (R.drain xs).2 = none := by
  induction xs using drain_induction (R := R) with
  | wait xs h => rwa [drain_none h]
  | item xs b rest h ih => rwa [drain_some h]

/-- Draining goes on where it has stopped. -/
theorem drain_append (xs ys : List α) :
    R.drain (xs ++ ys) =
      ((R.drain xs).1 ++ (R.drain ((R.drain xs).2 ++ ys)).1,
        (R.drain ((R.drain xs).2 ++ ys)).2) := by
  induction xs using drain_induction (R := R) with
  | wait xs h =>
      rw [drain_none h]
      rfl
  | item xs b rest h ih =>
      rw [drain_some (R.stable ys h), drain_some h, ih]
      rfl

/-- **What has been written item by item is read back**, up to an incomplete rest. -/
theorem drain_flatMap {enc : γ → List α} {val : γ → β} {items : List γ}
    (h : ∀ x ∈ items, ∀ rest, R.next (enc x ++ rest) = some (val x, rest)) {tail : List α}
    (htail : R.next tail = none) : R.drain (items.flatMap enc ++ tail) = (items.map val, tail) := by
  induction items with
  | nil => exact drain_none htail
  | cons x items ih =>
      have hhead := h x List.mem_cons_self (items.flatMap enc ++ tail)
      rw [List.flatMap_cons, List.append_assoc, drain_some hhead,
        ih fun y hy => h y (List.mem_cons_of_mem x hy)]
      rfl

/-- **The items of a beginning** of what has been written item by item are a beginning of them, and
    what is left goes on with the others. -/
theorem drain_beginning {enc : γ → List α} {val : γ → β} (hnil : R.next [] = none) (xs : List α)
    {ys : List α} {items : List γ}
    (h : ∀ x ∈ items, ∀ rest, R.next (enc x ++ rest) = some (val x, rest))
    (hwhole : xs ++ ys = items.flatMap enc) :
    ∃ front back, items = front ++ back ∧ (R.drain xs).1 = front.map val ∧
      (R.drain xs).2 ++ ys = back.flatMap enc := by
  induction xs using drain_induction (R := R) generalizing items with
  | wait xs hwait => exact ⟨[], items, rfl, by rw [drain_none hwait]; rfl,
      by rwa [drain_none hwait]⟩
  | item xs b rest hitem ih =>
      have hstable := R.stable ys hitem
      cases items with
      | nil =>
          rw [hwhole, List.flatMap_nil, hnil] at hstable
          cases hstable
      | cons x items =>
          rw [hwhole, List.flatMap_cons, h x List.mem_cons_self] at hstable
          obtain ⟨rfl, hrest⟩ := Prod.mk.inj (Option.some.inj hstable)
          obtain ⟨front, back, rfl, hfront, hback⟩ :=
            ih (fun y hy => h y (List.mem_cons_of_mem x hy)) hrest.symm
          rw [drain_some hitem]
          exact ⟨x :: front, back, rfl, congrArg (val x :: ·) hfront, hback⟩

end Reader

/-! ## Delimiters -/

variable [DecidableEq α]

/-- The part before the first place where the delimiter stands, and the part behind it. -/
def cutAt (d : List α) : List α → Option (List α × List α)
  | [] => none
  | x :: xs =>
      if d.isPrefixOf (x :: xs) then some ([], (x :: xs).drop d.length)
      else (cutAt d xs).map fun r => (x :: r.1, r.2)

variable {d : List α}

theorem cutAt_eq {xs front rest : List α} (h : cutAt d xs = some (front, rest)) :
    xs = front ++ d ++ rest := by
  induction xs generalizing front with
  | nil => cases h
  | cons x xs ih =>
      rw [cutAt] at h
      split at h
      next hprefix =>
        obtain ⟨tail, htail⟩ := List.isPrefixOf_iff_prefix.mp hprefix
        cases h
        rw [← htail, List.drop_left, List.nil_append]
      next =>
        obtain ⟨r, hr, heq⟩ := Option.map_eq_some_iff.mp h
        cases heq
        rw [ih hr]
        rfl

theorem cutAt_append {xs front rest : List α} (ys : List α) (h : cutAt d xs = some (front, rest)) :
    cutAt d (xs ++ ys) = some (front, rest ++ ys) := by
  induction xs generalizing front with
  | nil => cases h
  | cons x xs ih =>
      have hwhole := cutAt_eq h
      rw [cutAt] at h
      rw [List.cons_append, cutAt]
      split at h
      next hprefix =>
        obtain ⟨tail, htail⟩ := List.isPrefixOf_iff_prefix.mp hprefix
        cases h
        have hprefix' : d.isPrefixOf (x :: (xs ++ ys)) = true := by
          rw [← List.cons_append, ← htail, List.append_assoc]
          exact List.isPrefixOf_iff_prefix.mpr (List.prefix_append _ _)
        rw [if_pos hprefix', ← List.cons_append, ← htail, List.append_assoc, List.drop_left,
          List.drop_left]
      next hprefix =>
        obtain ⟨r, hr, heq⟩ := Option.map_eq_some_iff.mp h
        cases heq
        -- The delimiter stands further on, so its length does not reach into `ys`.
        have hlength : d.length ≤ (x :: xs).length := by
          rw [hwhole, List.length_append, List.length_append]
          omega
        have hprefix' : ¬ d.isPrefixOf (x :: (xs ++ ys)) = true := by
          intro hpre
          have hpre := List.isPrefixOf_iff_prefix.mp hpre
          rw [← List.cons_append] at hpre
          exact hprefix (List.isPrefixOf_iff_prefix.mpr
            (List.prefix_of_prefix_length_le hpre (List.prefix_append _ _) hlength))
        rw [if_neg hprefix', ih hr]
        rfl

/-- The reader of what the delimiter ends. -/
def upTo (d : List α) (hd : d ≠ []) : Reader α (List α) where
  next := cutAt d
  shrinks := by
    intro xs front rest h
    have hpos := List.length_pos_of_ne_nil hd
    rw [cutAt_eq h, List.length_append, List.length_append]
    omega
  stable := fun ys h => cutAt_append ys h

/-- A text in which the delimiter does not stand, also not across its end, is read up to it. -/
theorem cutAt_of_absent (hd : d ≠ []) (front rest : List α)
    (h : ∀ i < front.length, ¬ d <+: front.drop i ++ d) :
    cutAt d (front ++ d ++ rest) = some (front, rest) := by
  induction front with
  | nil =>
      obtain ⟨x, xs, rfl⟩ := List.exists_cons_of_ne_nil hd
      rw [List.nil_append, List.cons_append, cutAt, if_pos, ← List.cons_append, List.drop_left]
      rw [← List.cons_append]
      exact List.isPrefixOf_iff_prefix.mpr (List.prefix_append _ _)
  | cons x front ih =>
      have hrest := ih fun i hi => h (i + 1) (Nat.succ_lt_succ hi)
      have hprefix : ¬ d.isPrefixOf (x :: (front ++ d ++ rest)) = true := by
        intro hpre
        have hpre := List.isPrefixOf_iff_prefix.mp hpre
        refine h 0 (Nat.succ_pos _) ?_
        have hfront : x :: front ++ d <+: x :: (front ++ d ++ rest) := ⟨rest, rfl⟩
        refine List.prefix_of_prefix_length_le hpre hfront ?_
        rw [List.length_append]
        omega
      rw [List.cons_append, List.cons_append, cutAt, if_neg hprefix, hrest]
      rfl

/-- One character as a delimiter. -/
theorem cutAt_singleton {x : α} {front : List α} (rest : List α) (h : x ∉ front) :
    cutAt [x] (front ++ x :: rest) = some (front, rest) := by
  have hcut := cutAt_of_absent (List.cons_ne_nil x []) front rest ?_
  · rwa [List.append_assoc] at hcut
  · intro i hi hpre
    rw [List.drop_eq_getElem_cons hi, List.cons_append] at hpre
    obtain ⟨heq, -⟩ := List.cons_prefix_cons.mp hpre
    exact h (heq ▸ List.getElem_mem hi)

/-- A blank line: a line end that stands twice, behind lines that are not empty. -/
theorem cutAt_pair {x : α} {front : List α} (rest : List α)
    (h : ∀ i, front[i]? = some x → ∃ y, front[i + 1]? = some y ∧ y ≠ x) :
    cutAt [x, x] (front ++ x :: x :: rest) = some (front, rest) := by
  have hcut := cutAt_of_absent (List.cons_ne_nil x [x]) front rest ?_
  · rwa [List.append_assoc] at hcut
  · intro i hi hpre
    rw [List.drop_eq_getElem_cons hi, List.cons_append] at hpre
    obtain ⟨heq, hpre⟩ := List.cons_prefix_cons.mp hpre
    obtain ⟨y, hy, hne⟩ := h i (by rw [List.getElem?_eq_getElem hi, heq])
    obtain ⟨hi', rfl⟩ := List.getElem?_eq_some_iff.mp hy
    rw [List.drop_eq_getElem_cons hi', List.cons_append] at hpre
    exact hne (List.cons_prefix_cons.mp hpre).1.symm

end Incremental
end HermesPlatform
