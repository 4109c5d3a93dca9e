/-
  HermesPlatform.Lib.Uuid

  UUIDs, their text, and `uuid.UUID` on a text.

  Of what `int(_, 16)` takes, the reader takes the ASCII digits, which are all that the
  text of a UUID has: no `0x` in front, no underscores, no blanks around and no other
  digits of Unicode.
-/

import HermesPlatform.Lib.JsonText
import Mathlib.Algebra.Order.Ring.Nat
import Mathlib.Data.List.Induction

namespace HermesPlatform

structure Uuid where
  int : Nat
  lt : int < 2 ^ 128
deriving DecidableEq, Repr

namespace Uuid

/-! ## Hexadecimal digits -/

/-- The last `width` digits of a number, as in `"%032x" % n`. -/
def hexText : Nat → Nat → List Char
  | 0, _ => []
  | width + 1, n => hexText width (n / 16) ++ [Nat.digitChar (n % 16)]

/-- `int(text, 16)`, behind digits that have been read. -/
def readHex (acc : Nat) : List Char → Option Nat
  | [] => some acc
  | c :: rest => (Json.hexDigit? c).bind fun d => readHex (acc * 16 + d) rest

theorem hexText_length (width n : Nat) : (hexText width n).length = width := by
  induction width generalizing n with
  | zero => rfl
  | succ width ih => rw [hexText, List.length_append, ih, List.length_singleton]

theorem hexDigit?_of_mem {width n : Nat} {c : Char} (h : c ∈ hexText width n) :
    (Json.hexDigit? c).isSome := by
  induction width generalizing n with
  | zero => cases h
  | succ width ih =>
      rw [hexText, List.mem_append, List.mem_singleton] at h
      obtain h | rfl := h
      · exact ih h
      · rw [Json.hexDigit?_digitChar _ (Nat.mod_lt n (by decide))]
        rfl

theorem readHex_append (acc : Nat) (text : List Char) {d : Nat} (hd : d < 16) :
    readHex acc (text ++ [Nat.digitChar d]) = (readHex acc text).map (· * 16 + d) := by
  induction text generalizing acc with
  | nil =>
      have hread := Json.hexDigit?_digitChar d hd
      show (Json.hexDigit? (Nat.digitChar d)).bind _ = _
      rw [hread]
      rfl
  | cons c rest ih =>
      rw [List.cons_append, readHex, readHex, Option.map_bind]
      congr 1
      funext d'
      exact ih _

theorem readHex_hexText (width n : Nat) :
    readHex 0 (hexText width n) = some (n % 16 ^ width) := by
  induction width generalizing n with
  | zero => rw [hexText, readHex, Nat.pow_zero, Nat.mod_one]
  | succ width ih =>
      have hsplit : n % 16 ^ (width + 1) = n % 16 + 16 * (n / 16 % 16 ^ width) := by
        rw [Nat.pow_succ', Nat.mod_mul]
      rw [hexText, readHex_append 0 _ (Nat.mod_lt n (by decide)), ih, hsplit, Option.map_some]
      congr 1
      omega

/-! ## The text -/

/-- `f"{hex[:8]}-{hex[8:12]}-{hex[12:16]}-{hex[16:20]}-{hex[20:]}"`. -/
def dashed (hex : List Char) : List Char :=
  hex.take 8 ++ '-' :: ((hex.drop 8).take 4 ++ '-' :: ((hex.drop 12).take 4 ++
    '-' :: ((hex.drop 16).take 4 ++ '-' :: hex.drop 20)))

/-- `str(u)`. -/
@[irreducible] def str (u : Uuid) : String := String.ofList (dashed (hexText 32 u.int))

/-- `text.replace(word, "")`, where `skip` characters of an occurrence are still ahead. -/
def removeWord (word : List Char) : Nat → List Char → List Char
  | _, [] => []
  | skip + 1, _ :: rest => removeWord word skip rest
  | 0, c :: rest =>
      if word.isPrefixOf (c :: rest) then removeWord word (word.length - 1) rest
      else c :: removeWord word 0 rest

def isBrace (c : Char) : Bool := c = '\x7b' || c = '\x7d'

/-- `UUID(text)`, `none` for its `ValueError`. -/
@[irreducible] def parse (text : String) : Option Uuid :=
  let hex := removeWord "uuid:".toList 0 (removeWord "urn:".toList 0 text.toList)
  let hex := ((hex.dropWhile isBrace).rdropWhile isBrace).filter (· ≠ '-')
  if hex.length = 32 then
    (readHex 0 hex).bind fun n => if h : n < 2 ^ 128 then some ⟨n, h⟩ else none
  else none

theorem removeWord_eq (word : List Char) {c : Char} (hword : c ∈ word) {text : List Char}
    (htext : c ∉ text) : removeWord word 0 text = text := by
  induction text with
  | nil => rfl
  | cons a rest ih =>
      have hprefix : ¬ word.isPrefixOf (a :: rest) := by
        intro h
        exact htext ((List.isPrefixOf_iff_prefix.mp h).subset hword)
      rw [removeWord, if_neg hprefix, ih (fun h => htext (List.mem_cons_of_mem _ h))]

theorem filter_dashed {hex : List Char} (h : '-' ∉ hex) :
    (dashed hex).filter (· ≠ '-') = hex := by
  have hkeep : ∀ l : List Char, l ⊆ hex → l.filter (· ≠ '-') = l := by
    intro l hl
    refine List.filter_eq_self.mpr fun c hc => decide_eq_true ?_
    rintro rfl
    exact h (hl hc)
  have hdash : ∀ l : List Char, ('-' :: l).filter (· ≠ '-') = l.filter (· ≠ '-') := fun l =>
    List.filter_cons_of_neg (by decide)
  have hslice : ∀ m n, (hex.drop m).take n ⊆ hex := fun m n c hc =>
    List.mem_of_mem_drop (List.mem_of_mem_take hc)
  simp only [dashed, List.filter_append, hdash, hkeep _ (List.take_subset _ _),
    hkeep _ (hslice _ _), hkeep _ (List.drop_subset _ _)]
  have hjoin : ∀ m n, (hex.drop m).take n ++ hex.drop (m + n) = hex.drop m := by
    intro m n
    rw [← List.drop_drop, List.take_append_drop]
  rw [hjoin 16 4, hjoin 12 4, hjoin 8 4, List.take_append_drop]

theorem mem_dashed {hex : List Char} {c : Char} (h : c ∈ dashed hex) : c = '-' ∨ c ∈ hex := by
  simp only [dashed, List.mem_append, List.mem_cons] at h
  have htake : ∀ m n, c ∈ (hex.drop m).take n → c ∈ hex := fun m n hmem =>
    List.mem_of_mem_drop (List.mem_of_mem_take hmem)
  obtain h | h | h | h | h | h | h | h | h := h
  · exact .inr (List.mem_of_mem_take h)
  · exact .inl h
  · exact .inr (htake _ _ h)
  · exact .inl h
  · exact .inr (htake _ _ h)
  · exact .inl h
  · exact .inr (htake _ _ h)
  · exact .inl h
  · exact .inr (List.mem_of_mem_drop h)

/-- **A UUID is read back from its text.** -/
theorem parse_str (u : Uuid) : parse (str u) = some u := by
  have hhex : ∀ c ∈ hexText 32 u.int, (Json.hexDigit? c).isSome := fun c => hexDigit?_of_mem
  have htext : ∀ c ∈ dashed (hexText 32 u.int), c = '-' ∨ (Json.hexDigit? c).isSome :=
    fun c hc => (mem_dashed hc).imp_right (hhex c)
  -- No character of the text is one that the reader drops, the dashes apart.
  have hcolon : ':' ∉ dashed (hexText 32 u.int) := fun h =>
    absurd (htext _ h) (by decide)
  have hbrace : ∀ c ∈ dashed (hexText 32 u.int), isBrace c = false := by
    intro c hc
    by_contra hne
    rw [Bool.not_eq_false, isBrace, Bool.or_eq_true, decide_eq_true_eq, decide_eq_true_eq] at hne
    obtain rfl | rfl := hne <;> exact absurd (htext _ hc) (by decide)
  have hdash : '-' ∉ hexText 32 u.int := fun h => absurd (hhex _ h) (by decide)
  have hstrip : ((dashed (hexText 32 u.int)).dropWhile isBrace).rdropWhile isBrace =
      dashed (hexText 32 u.int) := by
    have hfront : (dashed (hexText 32 u.int)).dropWhile isBrace =
        dashed (hexText 32 u.int) := by
      refine List.dropWhile_eq_self_iff.mpr fun hpos => ?_
      rw [hbrace _ (List.getElem_mem hpos)]
      exact Bool.false_ne_true
    rw [hfront]
    refine List.rdropWhile_eq_self_iff.mpr fun hne => ?_
    rw [hbrace _ (List.getLast_mem hne)]
    exact Bool.false_ne_true
  have hlt : u.int % 16 ^ 32 = u.int := Nat.mod_eq_of_lt u.lt
  simp only [parse, str, String.toList_ofList]
  have hurn : ':' ∈ "urn:".toList := by decide
  have huuid : ':' ∈ "uuid:".toList := by decide
  rw [removeWord_eq _ hurn hcolon, removeWord_eq _ huuid hcolon, hstrip, filter_dashed hdash,
    if_pos (hexText_length 32 u.int), readHex_hexText, hlt, Option.bind_some, dif_pos u.lt]

theorem str_injective : Function.Injective str := by
  intro u v h
  have hparse : parse (str u) = parse (str v) := congrArg parse h
  rw [parse_str, parse_str] at hparse
  exact Option.some.inj hparse

/-! ## The bytes -/

/-- The last `width` bytes of a number, the highest first. -/
def bigEndian : Nat → Nat → List UInt8
  | 0, _ => []
  | width + 1, n => bigEndian width (n / 256) ++ [UInt8.ofNat n]

/-- `int.from_bytes(data, "big")`. -/
def fromBytes (data : List UInt8) : Nat := data.foldl (fun n b => n * 256 + b.toNat) 0

theorem length_bigEndian (width n : Nat) : (bigEndian width n).length = width := by
  induction width generalizing n with
  | zero => rfl
  | succ width ih => rw [bigEndian, List.length_append, ih, List.length_singleton]

theorem fromBytes_concat (data : List UInt8) (b : UInt8) :
    fromBytes (data ++ [b]) = fromBytes data * 256 + b.toNat := by
  rw [fromBytes, List.foldl_append]
  rfl

theorem fromBytes_bigEndian (width n : Nat) : fromBytes (bigEndian width n) = n % 256 ^ width := by
  induction width generalizing n with
  | zero => rw [bigEndian, Nat.pow_zero, Nat.mod_one, fromBytes, List.foldl_nil]
  | succ width ih =>
      have hsplit : n % 256 ^ (width + 1) = n % 256 + 256 * (n / 256 % 256 ^ width) := by
        rw [Nat.pow_succ', Nat.mod_mul]
      rw [bigEndian, fromBytes_concat, ih, hsplit, UInt8.toNat_ofNat']
      omega

theorem bigEndian_fromBytes (data : List UInt8) : bigEndian data.length (fromBytes data) = data := by
  induction data using List.reverseRecOn with
  | nil => rfl
  | append_singleton data b ih =>
      have hb := b.toNat_lt
      have hdiv : (fromBytes data * 256 + b.toNat) / 256 = fromBytes data := by omega
      have hlast : UInt8.ofNat (fromBytes data * 256 + b.toNat) = b := by
        refine UInt8.toNat_inj.mp ?_
        rw [UInt8.toNat_ofNat']
        omega
      rw [fromBytes_concat, List.length_append, List.length_singleton, bigEndian, hdiv, ih, hlast]

theorem fromBytes_lt (data : List UInt8) : fromBytes data < 256 ^ data.length := by
  have h := fromBytes_bigEndian data.length (fromBytes data)
  rw [bigEndian_fromBytes] at h
  rw [h]
  exact Nat.mod_lt _ (Nat.pow_pos (by decide))

/-- `u.bytes`. -/
def bytes (u : Uuid) : List UInt8 := bigEndian 16 u.int

/-- `UUID(bytes=data)` for sixteen bytes. -/
def ofBytes (data : List UInt8) (h : data.length = 16) : Uuid where
  int := fromBytes data
  lt := by
    have hlt := fromBytes_lt data
    rw [h] at hlt
    exact hlt

theorem length_bytes (u : Uuid) : u.bytes.length = 16 := length_bigEndian 16 u.int

theorem ofBytes_bytes (u : Uuid) : ofBytes u.bytes u.length_bytes = u := by
  obtain ⟨n, hn⟩ := u
  have hmod : n % 256 ^ 16 = n := Nat.mod_eq_of_lt hn
  simp only [ofBytes, bytes, fromBytes_bigEndian, hmod]

theorem bytes_ofBytes (data : List UInt8) (h : data.length = 16) : (ofBytes data h).bytes = data := by
  rw [bytes, ofBytes, ← h]
  exact bigEndian_fromBytes data

end Uuid
end HermesPlatform
