/-
  HermesPlatform.Lib.Utf8

  UTF-8, and decoding with U+FFFD for what is ill-formed, as in `decode(errors="replace")`.

  A byte sequence is cut into `segments`: the characters in it, and the ill-formed sequences
  between them, each as long as it could still have become a character.  A replacement character
  takes three bytes again, so the text may be longer than the bytes it was read from
  (`utf8Size_decodeReplace`); where a text is cut in the middle of a character, that is how the
  rest of the character comes back (`segments_take_encode`).
-/

import Mathlib.Algebra.Order.Ring.Nat
import Mathlib.Data.List.Count
import Mathlib.Data.Nat.Init

namespace HermesPlatform
namespace Utf8

/-! ## Characters -/

/-- The bytes of a character. -/
def encodeChar (c : Char) : List UInt8 :=
  let v := c.toNat
  if v < 0x80 then [.ofNat v]
  else if v < 0x800 then [.ofNat (0xC0 + v / 64), .ofNat (0x80 + v % 64)]
  else if v < 0x10000 then
    [.ofNat (0xE0 + v / 4096), .ofNat (0x80 + v / 64 % 64), .ofNat (0x80 + v % 64)]
  else
    [.ofNat (0xF0 + v / 262144), .ofNat (0x80 + v / 4096 % 64), .ofNat (0x80 + v / 64 % 64),
      .ofNat (0x80 + v % 64)]

/-- `text.encode()`. -/
def encode (cs : List Char) : List UInt8 := cs.flatMap encodeChar

/-- Where the code points of one, two, three and four bytes lie. -/
theorem utf8Size_cases (c : Char) :
    (c.utf8Size = 1 ∧ c.toNat < 0x80) ∨
    (c.utf8Size = 2 ∧ 0x80 ≤ c.toNat ∧ c.toNat < 0x800) ∨
    (c.utf8Size = 3 ∧ 0x800 ≤ c.toNat ∧ c.toNat < 0x10000 ∧
      (c.toNat < 0xD800 ∨ 0xE000 ≤ c.toNat)) ∨
    (c.utf8Size = 4 ∧ 0x10000 ≤ c.toNat ∧ c.toNat < 0x110000) := by
  have hvalid : c.toNat < 0xD800 ∨ (0xDFFF < c.toNat ∧ c.toNat < 0x110000) := c.valid
  have hval : c.val.toNat = c.toNat := rfl
  simp only [Char.utf8Size, UInt32.le_iff_toNat_le, hval, UInt32.toNat_ofNatLT]
  split
  · left; omega
  · split
    · right; left; omega
    · split
      · right; right; left; omega
      · right; right; right; omega

theorem length_encodeChar (c : Char) : (encodeChar c).length = c.utf8Size := by
  obtain h | h | h | h := utf8Size_cases c
  · simp [encodeChar, h]
  · have h1 : ¬ c.toNat < 0x80 := by omega
    simp [encodeChar, h, h1]
  · have h1 : ¬ c.toNat < 0x80 := by omega
    have h2 : ¬ c.toNat < 0x800 := by omega
    simp [encodeChar, h, h1, h2]
  · have h1 : ¬ c.toNat < 0x80 := by omega
    have h2 : ¬ c.toNat < 0x800 := by omega
    have h3 : ¬ c.toNat < 0x10000 := by omega
    simp [encodeChar, h, h1, h2, h3]

theorem length_encode (cs : List Char) : (encode cs).length = (cs.map Char.utf8Size).sum := by
  induction cs with
  | nil => rfl
  | cons c cs ih =>
      rw [encode, List.flatMap_cons, List.length_append, length_encodeChar, List.map_cons,
        List.sum_cons, ← ih]
      rfl

/-- The bytes of a character beyond ASCII. -/
theorem le_of_mem_encodeChar {c : Char} (hc : 0x80 ≤ c.toNat) {b : UInt8} (h : b ∈ encodeChar c) :
    0x80 ≤ b.toNat := by
  have hvalid : c.toNat < 0x110000 := by
    rcases utf8Size_cases c with h | h | h | h <;> omega
  have hbyte {n : Nat} (hlow : 0x80 ≤ n) (hhigh : n < 256) : 0x80 ≤ (UInt8.ofNat n).toNat := by
    rw [UInt8.toNat_ofNat', Nat.mod_eq_of_lt hhigh]
    exact hlow
  simp only [encodeChar, if_neg (Nat.not_lt.mpr hc)] at h
  split at h
  · simp only [List.mem_cons, List.not_mem_nil, or_false] at h
    rcases h with rfl | rfl <;> exact hbyte (by omega) (by omega)
  split at h
  · simp only [List.mem_cons, List.not_mem_nil, or_false] at h
    rcases h with rfl | rfl | rfl <;> exact hbyte (by omega) (by omega)
  · simp only [List.mem_cons, List.not_mem_nil, or_false] at h
    rcases h with rfl | rfl | rfl | rfl <;> exact hbyte (by omega) (by omega)

/-! ## Segments -/

inductive Segment where
  | char (c : Char)
  | bad (length : Nat)
  deriving DecidableEq

def Segment.size : Segment → Nat
  | .char c => c.utf8Size
  | .bad n => n

/-- What a first byte asks for: the bytes still owed, the range of the next one, and its bits. -/
structure Lead where
  owed : Nat
  low : Nat
  high : Nat
  bits : Nat

def lead (b : Nat) : Option Lead :=
  if b < 0x80 then some ⟨0, 0x80, 0xBF, b⟩
  else if b < 0xC2 then none
  else if b < 0xE0 then some ⟨1, 0x80, 0xBF, b - 0xC0⟩
  else if b = 0xE0 then some ⟨2, 0xA0, 0xBF, 0⟩
  else if b = 0xED then some ⟨2, 0x80, 0x9F, 0xD⟩
  else if b < 0xF0 then some ⟨2, 0x80, 0xBF, b - 0xE0⟩
  else if b = 0xF0 then some ⟨3, 0x90, 0xBF, 0⟩
  else if b < 0xF4 then some ⟨3, 0x80, 0xBF, b - 0xF0⟩
  else if b = 0xF4 then some ⟨3, 0x80, 0x8F, 4⟩
  else none

/-- Reads the bytes that are owed: the code point, unless one of them is missing, and how many
    have been read. -/
def tails : Nat → Nat → Nat → Nat → List UInt8 → Option Nat × Nat
  | 0, _, _, bits, _ => (some bits, 0)
  | _ + 1, _, _, _, [] => (none, 0)
  | owed + 1, low, high, bits, b :: bs =>
      if low ≤ b.toNat ∧ b.toNat ≤ high then
        let (v, n) := tails owed 0x80 0xBF (64 * bits + (b.toNat - 0x80)) bs
        (v, n + 1)
      else (none, 0)

/-- The first segment, and how many bytes it has behind its first one. -/
def front (b : UInt8) (bs : List UInt8) : Segment × Nat :=
  match lead b.toNat with
  | none => (.bad 1, 0)
  | some l =>
      match tails l.owed l.low l.high l.bits bs with
      | (some v, n) => (.char (Char.ofNat v), n)
      | (none, n) => (.bad (n + 1), n)

/-- The segments behind the first `n` bytes. -/
def segmentsFrom : Nat → List UInt8 → List Segment
  | _, [] => []
  | n + 1, _ :: bs => segmentsFrom n bs
  | 0, b :: bs => (front b bs).1 :: segmentsFrom (front b bs).2 bs

def segments (bytes : List UInt8) : List Segment := segmentsFrom 0 bytes

def Segment.text : Segment → Char
  | .char c => c
  | .bad _ => '\uFFFD'

/-- `bytes.decode(errors="replace")`. -/
def decodeReplace (bytes : List UInt8) : List Char := (segments bytes).map Segment.text

/-- The ill-formed sequences of a length. -/
def illFormed (n : Nat) (bytes : List UInt8) : Nat := (segments bytes).count (.bad n)

/-! ## Sizes -/

theorem tails_none {owed low high bits n : Nat} {bs : List UInt8}
    (h : tails owed low high bits bs = (none, n)) : n < owed ∧ n ≤ bs.length := by
  induction owed generalizing low high bits bs n with
  | zero => cases h
  | succ owed ih =>
      cases bs with
      | nil =>
          cases h
          exact ⟨Nat.succ_pos _, Nat.le_refl _⟩
      | cons b bs =>
          rw [tails] at h
          split at h
          next =>
            cases hrest : tails owed 0x80 0xBF (64 * bits + (b.toNat - 0x80)) bs with
            | mk v m =>
                rw [hrest] at h
                cases h
                have hm := ih hrest
                rw [List.length_cons]
                omega
          next =>
            cases h
            exact ⟨Nat.succ_pos _, Nat.zero_le _⟩

theorem tails_some_length {owed low high bits v n : Nat} {bs : List UInt8}
    (h : tails owed low high bits bs = (some v, n)) : n = owed ∧ n ≤ bs.length := by
  induction owed generalizing low high bits bs n with
  | zero =>
      cases h
      exact ⟨rfl, Nat.zero_le _⟩
  | succ owed ih =>
      cases bs with
      | nil => cases h
      | cons b bs =>
          rw [tails] at h
          split at h
          next =>
            cases hrest : tails owed 0x80 0xBF (64 * bits + (b.toNat - 0x80)) bs with
            | mk v m =>
                rw [hrest] at h
                cases h
                have hm := ih hrest
                rw [List.length_cons]
                omega
          next => cases h

/-- The range of the code point: the first byte that is owed has its own bounds. -/
theorem tails_some_value {owed low high bits v n : Nat} {bs : List UInt8} (hlow : 0x80 ≤ low)
    (hhigh : high ≤ 0xBF) (h : tails (owed + 1) low high bits bs = (some v, n)) :
    (64 * bits + (low - 0x80)) * 64 ^ owed ≤ v ∧
      v < (64 * bits + (high - 0x80) + 1) * 64 ^ owed := by
  induction owed generalizing low high bits bs n with
  | zero =>
      cases bs with
      | nil => cases h
      | cons b bs =>
          rw [tails] at h
          split at h
          next hb =>
            simp only [tails, Prod.mk.injEq, Option.some.injEq] at h
            obtain ⟨rfl, -⟩ := h
            rw [Nat.pow_zero]
            omega
          next => cases h
  | succ owed ih =>
      cases bs with
      | nil => cases h
      | cons b bs =>
          rw [tails] at h
          split at h
          next hb =>
            generalize hx : 64 * bits + (b.toNat - 0x80) = x at h
            cases hrest : tails (owed + 1) 0x80 0xBF x bs with
            | mk v' m =>
                rw [hrest] at h
                obtain ⟨rfl, -⟩ := Prod.mk.inj h
                obtain ⟨hleast, hmost⟩ := ih (Nat.le_refl _) (Nat.le_refl _) hrest
                have hlow' : 64 * bits + (low - 0x80) ≤ x := by omega
                have hhigh' : x + 1 ≤ 64 * bits + (high - 0x80) + 1 := by omega
                have hstep (y : Nat) : y * 64 ^ (owed + 1) = 64 * y * 64 ^ owed := by
                  rw [Nat.pow_succ, Nat.mul_comm _ 64, ← Nat.mul_assoc, Nat.mul_comm y]
                have hbelow := Nat.mul_le_mul_right (64 ^ (owed + 1)) hlow'
                have habove := Nat.mul_le_mul_right (64 ^ (owed + 1)) hhigh'
                rw [hstep x] at hbelow
                rw [hstep (x + 1)] at habove
                exact ⟨Nat.le_trans hbelow hleast, Nat.lt_of_lt_of_le hmost habove⟩
          next => cases h

/-- The code points that a first byte leads to. -/
theorem lead_spec {b : Nat} {l : Lead} (h : lead b = some l) :
    (l.owed = 0 ∧ l.bits < 0x80) ∨
    (0x80 ≤ l.low ∧ l.high ≤ 0xBF ∧
      ((l.owed = 1 ∧ 2 ≤ l.bits ∧ l.bits < 32) ∨
      (l.owed = 2 ∧ 0x800 ≤ (64 * l.bits + (l.low - 0x80)) * 64 ∧
        (64 * l.bits + (l.high - 0x80) + 1) * 64 ≤ 0x10000 ∧
        ((64 * l.bits + (l.high - 0x80) + 1) * 64 ≤ 0xD800 ∨
          0xE000 ≤ (64 * l.bits + (l.low - 0x80)) * 64)) ∨
      (l.owed = 3 ∧ 0x10000 ≤ (64 * l.bits + (l.low - 0x80)) * 4096 ∧
        (64 * l.bits + (l.high - 0x80) + 1) * 4096 ≤ 0x110000))) := by
  rw [lead] at h
  by_cases hone : b < 0x80
  · rw [if_pos hone] at h
    cases h
    exact .inl ⟨rfl, hone⟩
  rw [if_neg hone] at h
  right
  by_cases htail : b < 0xC2
  · rw [if_pos htail] at h
    cases h
  rw [if_neg htail] at h
  by_cases htwo : b < 0xE0
  · rw [if_pos htwo] at h
    cases h
    refine ⟨Nat.le_refl _, Nat.le_refl _, .inl ⟨rfl, ?_⟩⟩
    simp only
    omega
  rw [if_neg htwo] at h
  by_cases he0 : b = 0xE0
  · rw [if_pos he0] at h
    cases h
    exact ⟨by decide, by decide, .inr (.inl ⟨rfl, by decide, by decide, by decide⟩)⟩
  rw [if_neg he0] at h
  by_cases hed : b = 0xED
  · rw [if_pos hed] at h
    cases h
    exact ⟨by decide, by decide, .inr (.inl ⟨rfl, by decide, by decide, by decide⟩)⟩
  rw [if_neg hed] at h
  by_cases hthree : b < 0xF0
  · rw [if_pos hthree] at h
    cases h
    refine ⟨Nat.le_refl _, Nat.le_refl _, .inr (.inl ⟨rfl, ?_⟩)⟩
    simp only
    omega
  rw [if_neg hthree] at h
  by_cases hf0 : b = 0xF0
  · rw [if_pos hf0] at h
    cases h
    exact ⟨by decide, by decide, .inr (.inr ⟨rfl, by decide, by decide⟩)⟩
  rw [if_neg hf0] at h
  by_cases hfour : b < 0xF4
  · rw [if_pos hfour] at h
    cases h
    refine ⟨Nat.le_refl _, Nat.le_refl _, .inr (.inr ⟨rfl, ?_⟩)⟩
    simp only
    omega
  rw [if_neg hfour] at h
  by_cases hf4 : b = 0xF4
  · rw [if_pos hf4] at h
    cases h
    exact ⟨by decide, by decide, .inr (.inr ⟨rfl, by decide, by decide⟩)⟩
  · rw [if_neg hf4] at h
    cases h

theorem toNat_ofNat {v : Nat} (h : v.isValidChar) : (Char.ofNat v).toNat = v := by
  rw [Char.ofNat, dif_pos h]
  rfl

/-- A character takes the bytes that its first byte asks for. -/
theorem utf8Size_ofNat {b v n : Nat} {l : Lead} {bs : List UInt8} (hlead : lead b = some l)
    (h : tails l.owed l.low l.high l.bits bs = (some v, n)) :
    (Char.ofNat v).utf8Size = l.owed + 1 ∧ (Char.ofNat v).toNat = v := by
  have hcases := lead_spec hlead
  have hrange : v.isValidChar ∧ (l.owed = 0 → v < 0x80) ∧
      (l.owed = 1 → 0x80 ≤ v ∧ v < 0x800) ∧ (l.owed = 2 → 0x800 ≤ v ∧ v < 0x10000) ∧
      (l.owed = 3 → 0x10000 ≤ v) ∧ l.owed ≤ 3 := by
    obtain ⟨howed, hbits⟩ | ⟨hlow, hhigh, hcases⟩ := hcases
    · rw [howed] at h
      cases h
      refine ⟨.inl ?_, ?_⟩ <;> omega
    · obtain ⟨howed, hcases⟩ | ⟨howed, hcases⟩ | ⟨howed, hcases⟩ := hcases
      all_goals
        rw [howed] at h
        have hvalue := tails_some_value hlow hhigh h
        simp only [Nat.isValidChar]
        omega
  obtain ⟨hvalid, hrange⟩ := hrange
  have hval := toNat_ofNat hvalid
  have hsize := utf8Size_cases (Char.ofNat v)
  rw [hval] at hsize
  exact ⟨by omega, hval⟩

theorem front_spec (b : UInt8) (bs : List UInt8) :
    (front b bs).1.size = (front b bs).2 + 1 ∧ (front b bs).2 ≤ bs.length ∧
      ∀ n, (front b bs).1 = .bad n → n ≤ 3 := by
  simp only [front]
  split
  next => exact ⟨rfl, Nat.zero_le _, by rintro n ⟨⟩; decide⟩
  next l hlead =>
    split
    next v n htails =>
      obtain ⟨rfl, hlength⟩ := tails_some_length htails
      exact ⟨(utf8Size_ofNat hlead htails).1, hlength, by rintro n ⟨⟩⟩
    next n htails =>
      obtain ⟨hless, hlength⟩ := tails_none htails
      refine ⟨rfl, hlength, ?_⟩
      rintro m ⟨⟩
      have hcases := lead_spec hlead
      omega

theorem segmentsFrom_drop (n : Nat) (bytes : List UInt8) :
    segmentsFrom n bytes = segments (bytes.drop n) := by
  induction n generalizing bytes with
  | zero => rfl
  | succ n ih =>
      cases bytes with
      | nil => rfl
      | cons b bs => exact ih bs

theorem segments_cons (b : UInt8) (bs : List UInt8) :
    segments (b :: bs) = (front b bs).1 :: segments (bs.drop (front b bs).2) := by
  rw [segments, segmentsFrom, segmentsFrom_drop]

/-- One segment after another. -/
theorem segments_induction {P : List UInt8 → Prop} (nil : P [])
    (cons : ∀ b bs, P (bs.drop (front b bs).2) → P (b :: bs)) (bytes : List UInt8) : P bytes := by
  induction hlength : bytes.length using Nat.strong_induction_on generalizing bytes with
  | h n ih =>
      cases bytes with
      | nil => exact nil
      | cons b bs =>
          refine cons b bs (ih _ ?_ _ rfl)
          rw [List.length_drop, ← hlength, List.length_cons]
          omega

theorem utf8Size_text {s : Segment} (h : ∀ n, s = .bad n → n ≤ 3) (hpos : 0 < s.size) :
    s.text.utf8Size = s.size + 2 * (if s = .bad 1 then 1 else 0) +
      (if s = .bad 2 then 1 else 0) := by
  have hreplaced : ('\uFFFD' : Char).utf8Size = 3 := by decide
  cases s with
  | char c => simp [Segment.text, Segment.size]
  | bad n =>
      have hn := h n rfl
      simp only [Segment.size] at hpos
      obtain rfl | rfl | rfl : n = 1 ∨ n = 2 ∨ n = 3 := by omega
      all_goals simp [Segment.text, Segment.size, hreplaced]

/-- **The size of the text.**  An ill-formed sequence of one byte takes two bytes more than
    before, one of two bytes takes one more. -/
theorem utf8Size_decodeReplace (bytes : List UInt8) :
    (encode (decodeReplace bytes)).length =
      bytes.length + 2 * illFormed 1 bytes + illFormed 2 bytes := by
  rw [length_encode]
  -- Along the segments: each adds what its character takes more than its bytes.
  induction bytes using segments_induction with
  | nil => rfl
  | cons b bs ih =>
      obtain ⟨hsize, hlength, hbad⟩ := front_spec b bs
      have htext := utf8Size_text hbad (by omega)
      simp only [decodeReplace, illFormed] at ih
      rw [List.length_drop] at ih
      simp only [decodeReplace, illFormed, segments_cons, List.map_cons, List.sum_cons,
        List.count_cons, beq_iff_eq, List.length_cons]
      omega

/-! ## Texts that are cut -/

theorem toNat_byte {n : Nat} (h : n < 256) : (UInt8.ofNat n).toNat = n := by
  rw [UInt8.toNat_ofNat']
  exact Nat.mod_eq_of_lt h

theorem tails_cons {owed low high bits n : Nat} {bs : List UInt8} (hn : n < 256) (hlow : low ≤ n)
    (hhigh : n ≤ high) :
    tails (owed + 1) low high bits (.ofNat n :: bs) =
      ((tails owed 0x80 0xBF (64 * bits + (n - 0x80)) bs).1,
        (tails owed 0x80 0xBF (64 * bits + (n - 0x80)) bs).2 + 1) := by
  rw [tails, toNat_byte hn, if_pos ⟨hlow, hhigh⟩]

/-- The bytes of a character, read back. -/
theorem encodeChar_spec (c : Char) : ∃ b bs l, encodeChar c = b :: bs ∧ lead b.toNat = some l ∧
    l.owed = bs.length ∧
    ∀ rest, tails l.owed l.low l.high l.bits (bs ++ rest) = (some c.toNat, bs.length) := by
  obtain h | h | h | h := utf8Size_cases c
  · refine ⟨.ofNat c.toNat, [], ⟨0, 0x80, 0xBF, c.toNat⟩, ?_, ?_, rfl, fun _ => rfl⟩
    · simp [encodeChar, h.2]
    · rw [toNat_byte (by omega), lead, if_pos h.2]
  · have h1 : ¬ c.toNat < 0x80 := by omega
    refine ⟨.ofNat (0xC0 + c.toNat / 64), [.ofNat (0x80 + c.toNat % 64)],
      ⟨1, 0x80, 0xBF, c.toNat / 64⟩, ?_, ?_, rfl, ?_⟩
    · simp [encodeChar, h1, h.2.2]
    · rw [toNat_byte (by omega), lead, if_neg (by omega), if_neg (by omega), if_pos (by omega),
        Nat.add_sub_cancel_left]
    · intro rest
      simp only [List.singleton_append]
      rw [tails_cons (by omega) (by omega) (by omega)]
      simp only [tails, List.length_singleton, Prod.mk.injEq, Option.some.injEq, and_true]
      omega
  · have h1 : ¬ c.toNat < 0x80 := by omega
    have h2 : ¬ c.toNat < 0x800 := by omega
    have hbytes : encodeChar c = [.ofNat (0xE0 + c.toNat / 4096),
        .ofNat (0x80 + c.toNat / 64 % 64), .ofNat (0x80 + c.toNat % 64)] := by
      simp [encodeChar, h1, h2, h.2.2.1]
    have hlead : ∃ low high, lead (0xE0 + c.toNat / 4096) = some ⟨2, low, high, c.toNat / 4096⟩ ∧
        low ≤ 0x80 + c.toNat / 64 % 64 ∧ 0x80 + c.toNat / 64 % 64 ≤ high := by
      by_cases he0 : c.toNat / 4096 = 0
      · refine ⟨0xA0, 0xBF, ?_, by omega, by omega⟩
        rw [he0]
        rfl
      · by_cases hed : c.toNat / 4096 = 0xD
        · -- Behind this byte are the surrogates, which are no characters.
          refine ⟨0x80, 0x9F, ?_, by omega, by omega⟩
          rw [hed]
          rfl
        · refine ⟨0x80, 0xBF, ?_, by omega, by omega⟩
          rw [lead, if_neg (by omega), if_neg (by omega), if_neg (by omega), if_neg (by omega),
            if_neg (by omega), if_pos (by omega), Nat.add_sub_cancel_left]
    obtain ⟨low, high, hlead, hlow, hhigh⟩ := hlead
    refine ⟨_, _, _, hbytes, (by rw [toNat_byte (by omega)]; exact hlead), rfl, ?_⟩
    intro rest
    simp only [List.cons_append, List.nil_append]
    rw [tails_cons (by omega) hlow hhigh, tails_cons (by omega) (by omega) (by omega)]
    simp only [tails, List.length_cons, List.length_nil, Prod.mk.injEq, Option.some.injEq, and_true]
    omega
  · have h1 : ¬ c.toNat < 0x80 := by omega
    have h2 : ¬ c.toNat < 0x800 := by omega
    have h3 : ¬ c.toNat < 0x10000 := by omega
    have hbytes : encodeChar c = [.ofNat (0xF0 + c.toNat / 262144),
        .ofNat (0x80 + c.toNat / 4096 % 64), .ofNat (0x80 + c.toNat / 64 % 64),
        .ofNat (0x80 + c.toNat % 64)] := by
      simp [encodeChar, h1, h2, h3]
    have hlead : ∃ low high, lead (0xF0 + c.toNat / 262144) =
          some ⟨3, low, high, c.toNat / 262144⟩ ∧
        low ≤ 0x80 + c.toNat / 4096 % 64 ∧ 0x80 + c.toNat / 4096 % 64 ≤ high := by
      by_cases hf0 : c.toNat / 262144 = 0
      · refine ⟨0x90, 0xBF, ?_, by omega, by omega⟩
        rw [hf0]
        rfl
      · by_cases hf4 : c.toNat / 262144 = 4
        · refine ⟨0x80, 0x8F, ?_, by omega, by omega⟩
          rw [hf4]
          rfl
        · refine ⟨0x80, 0xBF, ?_, by omega, by omega⟩
          rw [lead, if_neg (by omega), if_neg (by omega), if_neg (by omega), if_neg (by omega),
            if_neg (by omega), if_neg (by omega), if_neg (by omega), if_pos (by omega),
            Nat.add_sub_cancel_left]
    obtain ⟨low, high, hlead, hlow, hhigh⟩ := hlead
    refine ⟨_, _, _, hbytes, (by rw [toNat_byte (by omega)]; exact hlead), rfl, ?_⟩
    intro rest
    simp only [List.cons_append, List.nil_append]
    rw [tails_cons (by omega) hlow hhigh, tails_cons (by omega) (by omega) (by omega),
      tails_cons (by omega) (by omega) (by omega)]
    simp only [tails, List.length_cons, List.length_nil, Prod.mk.injEq, Option.some.injEq, and_true]
    omega

/-- With fewer bytes than are owed, there is no code point. -/
theorem tails_take {owed low high bits v k : Nat} {bs : List UInt8}
    (h : tails owed low high bits bs = (some v, owed)) (hk : k < owed) :
    tails owed low high bits (bs.take k) = (none, k) := by
  induction owed generalizing low high bits bs k with
  | zero => exact absurd hk (Nat.not_lt_zero k)
  | succ owed ih =>
      cases bs with
      | nil => cases h
      | cons b bs =>
          cases k with
          | zero => rfl
          | succ k =>
              rw [tails] at h
              split at h
              next hb =>
                cases hrest : tails owed 0x80 0xBF (64 * bits + (b.toNat - 0x80)) bs with
                | mk v' m =>
                    rw [hrest] at h
                    obtain ⟨rfl, hm⟩ := Prod.mk.inj h
                    obtain rfl : m = owed := Nat.succ.inj hm
                    rw [List.take_succ_cons, tails, if_pos hb,
                      ih hrest (Nat.lt_of_succ_lt_succ hk)]
              next => cases h

theorem segments_encodeChar (c : Char) (rest : List UInt8) :
    segments (encodeChar c ++ rest) = .char c :: segments rest := by
  obtain ⟨b, bs, l, hbytes, hlead, howed, htails⟩ := encodeChar_spec c
  have hfront : front b (bs ++ rest) = (.char c, bs.length) := by
    simp only [front, hlead, htails rest, Char.ofNat_toNat]
  rw [hbytes, List.cons_append, segments_cons, hfront, List.drop_left]

/-- A character that is cut is one ill-formed sequence. -/
theorem segments_take_encodeChar {c : Char} {k : Nat} (hpos : 0 < k) (hk : k < c.utf8Size) :
    segments ((encodeChar c).take k) = [.bad k] := by
  obtain ⟨b, bs, l, hbytes, hlead, howed, htails⟩ := encodeChar_spec c
  have hlength := length_encodeChar c
  rw [hbytes, List.length_cons] at hlength
  obtain ⟨k, rfl⟩ : ∃ m, k = m + 1 := ⟨k - 1, by omega⟩
  have hread := htails []
  rw [List.append_nil, ← howed] at hread
  have hcut : front b (bs.take k) = (.bad (k + 1), k) := by
    simp only [front, hlead, tails_take hread (by omega : k < l.owed)]
  rw [hbytes, List.take_succ_cons, segments_cons, hcut]
  have hnone : (bs.take k).drop k = [] :=
    List.drop_eq_nil_of_le (by rw [List.length_take]; exact Nat.min_le_left _ _)
  rw [hnone]
  rfl

/-- The bytes that are left of the character in which a text is cut after `n` bytes. -/
def cut : List Char → Nat → Nat
  | [], _ => 0
  | c :: cs, n => if c.utf8Size ≤ n then cut cs (n - c.utf8Size) else n

theorem cut_append {whole : List Char} (cs : List Char) {n : Nat} (h : (encode whole).length ≤ n) :
    cut (whole ++ cs) n = cut cs (n - (encode whole).length) := by
  induction whole generalizing n with
  | nil => rfl
  | cons c whole ih =>
      have hencode : encode (c :: whole) = encodeChar c ++ encode whole := List.flatMap_cons ..
      rw [hencode, List.length_append, length_encodeChar] at h
      rw [List.cons_append, cut, if_pos (by omega), ih (by omega), hencode, List.length_append,
        length_encodeChar, Nat.sub_sub]

/-- **A text that is cut** is whole characters, and what is left of the next one. -/
theorem segments_take_encode (cs : List Char) (n : Nat) :
    ∃ whole, whole <+: cs ∧ segments ((encode cs).take n) =
      whole.map .char ++ (if cut cs n = 0 then [] else [.bad (cut cs n)]) := by
  induction cs generalizing n with
  | nil => exact ⟨[], List.prefix_refl _, by simp [encode, cut, segments, segmentsFrom]⟩
  | cons c cs ih =>
      have hencode : encode (c :: cs) = encodeChar c ++ encode cs := List.flatMap_cons ..
      rw [hencode, List.take_append, length_encodeChar, cut]
      by_cases hc : c.utf8Size ≤ n
      · obtain ⟨whole, hprefix, hwhole⟩ := ih (n - c.utf8Size)
        refine ⟨c :: whole, List.cons_prefix_cons.mpr ⟨rfl, hprefix⟩, ?_⟩
        rw [if_pos hc, List.take_of_length_le (by rwa [length_encodeChar]), segments_encodeChar,
          hwhole]
        rfl
      · refine ⟨[], List.nil_prefix, ?_⟩
        have hrest : n - c.utf8Size = 0 := by omega
        rw [if_neg hc, hrest, List.take_zero, List.append_nil]
        by_cases hn : n = 0
        · subst hn
          rfl
        · rw [if_neg hn, segments_take_encodeChar (by omega) (by omega)]
          rfl

theorem illFormed_take_encode {k : Nat} (hk : 0 < k) (cs : List Char) (n : Nat) :
    illFormed k ((encode cs).take n) = if cut cs n = k then 1 else 0 := by
  obtain ⟨whole, -, hsegments⟩ := segments_take_encode cs n
  have hwhole : (whole.map Segment.char).count (.bad k) = 0 := by
    rw [List.count_eq_zero]
    simp
  rw [illFormed, hsegments, List.count_append, hwhole, Nat.zero_add]
  by_cases hcut : cut cs n = 0
  · rw [if_pos hcut, hcut, if_neg (by omega)]
    rfl
  · rw [if_neg hcut, List.count_singleton]
    simp

theorem le_length_of_cut {cs : List Char} {n : Nat} (h : cut cs n ≠ 0) :
    n ≤ (encode cs).length := by
  induction cs generalizing n with
  | nil => exact absurd rfl h
  | cons c cs ih =>
      have hencode : encode (c :: cs) = encodeChar c ++ encode cs := List.flatMap_cons ..
      rw [hencode, List.length_append, length_encodeChar]
      rw [cut] at h
      split at h
      next hc =>
        have hrest := ih h
        omega
      next hc => omega

/-- What a text is cut to comes back longer when one or two bytes are left of a character. -/
theorem length_decodeReplace_take (cs : List Char) (n : Nat) :
    (encode (decodeReplace ((encode cs).take n))).length ≤ n ↔ cut cs n ≠ 1 ∧ cut cs n ≠ 2 := by
  rw [utf8Size_decodeReplace, illFormed_take_encode (by decide), illFormed_take_encode (by decide),
    List.length_take]
  have hmin := Nat.min_le_left n (encode cs).length
  by_cases hone : cut cs n = 1
  · have hle := le_length_of_cut (by omega : cut cs n ≠ 0)
    rw [Nat.min_eq_left hle, if_pos hone, if_neg (by omega)]
    omega
  · by_cases htwo : cut cs n = 2
    · have hle := le_length_of_cut (by omega : cut cs n ≠ 0)
      rw [Nat.min_eq_left hle, if_neg hone, if_pos htwo]
      omega
    · rw [if_neg hone, if_neg htwo]
      omega

end Utf8
end HermesPlatform
