/-
  HermesPlatform.Lib.Utf8Stream

  Decoding UTF-8 that arrives in pieces, as a stream decoder does: a character whose bytes have
  not all arrived is kept back, and at the end of the stream it is ill-formed.

  What has been read and what is left make up the segments of the whole
  (`segments_eq_drain`).
-/

import HermesPlatform.Lib.Incremental
import HermesPlatform.Lib.Utf8

namespace HermesPlatform
namespace Utf8

open Incremental

/-- The bytes that have arrived behind a first byte are the beginning of a character. -/
def starved (b : UInt8) (bs : List UInt8) : Bool :=
  match lead b.toNat with
  | none => false
  | some l => tails l.owed l.low l.high l.bits bs = (none, bs.length)

def nextSegment : List UInt8 → Option (Segment × List UInt8)
  | [] => none
  | b :: bs => if starved b bs then none else some ((front b bs).1, bs.drop (front b bs).2)

theorem tails_append {owed low high bits : Nat} {bs : List UInt8} (ys : List UInt8)
    (h : tails owed low high bits bs ≠ (none, bs.length)) :
    tails owed low high bits (bs ++ ys) = tails owed low high bits bs := by
  induction owed generalizing low high bits bs with
  | zero => rfl
  | succ owed ih =>
      cases bs with
      | nil => exact absurd rfl h
      | cons b bs =>
          rw [List.cons_append, tails, tails]
          by_cases hb : low ≤ b.toNat ∧ b.toNat ≤ high
          · rw [if_pos hb, if_pos hb, ih]
            intro hrest
            refine h ?_
            rw [tails, if_pos hb, hrest]
            rfl
          · rw [if_neg hb, if_neg hb]

theorem front_append {b : UInt8} {bs : List UInt8} (ys : List UInt8) (h : starved b bs = false) :
    starved b (bs ++ ys) = false ∧ front b (bs ++ ys) = front b bs := by
  unfold starved at h ⊢
  unfold front
  cases hlead : lead b.toNat with
  | none => exact ⟨rfl, rfl⟩
  | some l =>
      rw [hlead] at h
      dsimp only at h ⊢
      rw [decide_eq_false_iff_not] at h ⊢
      rw [tails_append ys h]
      refine ⟨?_, rfl⟩
      intro hnone
      obtain ⟨-, hlength⟩ := tails_none hnone
      rw [List.length_append] at hnone hlength
      cases ys with
      | nil => exact h (by simpa using hnone)
      | cons y ys =>
          have hshort := (tails_none hnone).2
          rw [List.length_cons] at hshort
          omega

theorem nextSegment_stable {xs : List UInt8} {s : Segment} {rest : List UInt8} (ys : List UInt8)
    (h : nextSegment xs = some (s, rest)) : nextSegment (xs ++ ys) = some (s, rest ++ ys) := by
  cases xs with
  | nil => cases h
  | cons b bs =>
      rw [nextSegment] at h
      split at h
      next => cases h
      next hstarved =>
        cases h
        obtain ⟨hstarved', hfront⟩ := front_append ys (Bool.not_eq_true _ ▸ hstarved)
        rw [List.cons_append, nextSegment, hstarved', if_neg Bool.false_ne_true, hfront,
          List.drop_append_of_le_length (front_spec b bs).2.1]

theorem nextSegment_shrinks {xs : List UInt8} {s : Segment} {rest : List UInt8}
    (h : nextSegment xs = some (s, rest)) : rest.length < xs.length := by
  cases xs with
  | nil => cases h
  | cons b bs =>
      rw [nextSegment] at h
      split at h
      next => cases h
      next =>
        cases h
        rw [List.length_drop, List.length_cons]
        omega

def segmentReader : Reader UInt8 Segment where
  next := nextSegment
  shrinks := nextSegment_shrinks
  stable := fun ys h => nextSegment_stable ys h

/-- What is kept back at the end of the stream. -/
def flush (kept : List UInt8) : List Segment := if kept = [] then [] else [.bad kept.length]

theorem segments_waiting {xs : List UInt8} (h : nextSegment xs = none) :
    segments xs = flush xs := by
  cases xs with
  | nil => rfl
  | cons b bs =>
      rw [nextSegment] at h
      split at h
      next hstarved =>
        have hfront : front b bs = (.bad (bs.length + 1), bs.length) := by
          unfold starved at hstarved
          unfold front
          cases hlead : lead b.toNat with
          | none =>
              rw [hlead] at hstarved
              cases hstarved
          | some l =>
              rw [hlead] at hstarved
              dsimp only at hstarved ⊢
              rw [of_decide_eq_true hstarved]
        rw [segments_cons, hfront, List.drop_length]
        rfl
      next => cases h

/-- Behind what has been read the segments are those of the rest. -/
theorem segments_eq_drain (xs : List UInt8) :
    segments xs = (segmentReader.drain xs).1 ++ flush (segmentReader.drain xs).2 := by
  induction xs using Reader.drain_induction (R := segmentReader) with
  | wait xs h => rw [Reader.drain_none h, segments_waiting h, List.nil_append]
  | item xs s rest h ih =>
      rw [Reader.drain_some h, List.cons_append, ← ih]
      cases xs with
      | nil => cases h
      | cons b bs =>
          have hnext : nextSegment (b :: bs) = some (s, rest) := h
          rw [nextSegment] at hnext
          split at hnext
          next => cases hnext
          next =>
            cases hnext
            exact segments_cons b bs

/-- The text of the bytes of a text. -/
theorem decodeReplace_encode (cs : List Char) : decodeReplace (encode cs) = cs := by
  induction cs with
  | nil => rfl
  | cons c cs ih =>
      have hencode : encode (c :: cs) = encodeChar c ++ encode cs := List.flatMap_cons ..
      rw [decodeReplace] at ih ⊢
      rw [hencode, segments_encodeChar, List.map_cons, ih]
      rfl

end Utf8
end HermesPlatform
