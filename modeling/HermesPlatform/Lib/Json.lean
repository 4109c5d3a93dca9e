/-
  HermesPlatform.Lib.Json

  JSON values and their canonical text.

  `print` is `json.dumps` with the separators "," and ":" and no ASCII escapes;
  `dumps` has the keys sorted at every level.  The text of a value, followed by a
  delimiter, determines the value (`print_inj`), so two values have the same
  canonical text just when they are the same up to the order of members.
-/

import Mathlib.Data.List.Sort
import Mathlib.Data.String.Basic

namespace HermesPlatform

/-! ## Values -/

/-- The text of a floating-point number, such as `1.5`, `-2e+16`, `NaN` or
    `-Infinity`; it is never the text of an integer. -/
structure FloatText where
  text : List Char
  chars : text.all (fun c => c.isDigit || c ∈ "+-.eNaIinfty".toList) = true
  marked : text.any (fun c => !(c.isDigit || c = '-')) = true

/-- A JSON value.  Members have the order in which they stand. -/
inductive Json where
  | null
  | bool (b : Bool)
  | int (n : Int)
  | float (f : FloatText)
  | string (s : String)
  | array (items : List Json)
  | object (members : List (String × Json))

namespace Json

/-- Induction over the values with one case for each form. -/
@[elab_as_elim, induction_eliminator]
theorem induction {P : Json → Prop} (null : P .null) (bool : ∀ b, P (.bool b))
    (int : ∀ n, P (.int n)) (float : ∀ f, P (.float f)) (string : ∀ s, P (.string s))
    (array : ∀ items, (∀ v ∈ items, P v) → P (.array items))
    (object : ∀ members, (∀ m ∈ members, P m.2) → P (.object members)) (v : Json) : P v := by
  refine @Json.rec P (fun items => ∀ v ∈ items, P v) (fun members => ∀ m ∈ members, P m.2)
    (fun m => P m.2) null bool int float string array object ?_ ?_ ?_ ?_ ?_ v
  · simp
  · intro head tail hhead htail v hv
    rcases List.mem_cons.mp hv with rfl | hv
    · exact hhead
    · exact htail v hv
  · simp
  · intro head tail hhead htail m hm
    rcases List.mem_cons.mp hm with rfl | hm
    · exact hhead
    · exact htail m hm
  · exact fun _ _ h => h

/-! ## Sorted keys -/

/-- `sorted(members)`; a dictionary has no key twice. -/
def sortByKey (members : List (String × Json)) : List (String × Json) :=
  members.insertionSort fun m n => m.1 ≤ n.1

mutual
/-- The value with the keys sorted at every level. -/
def sortKeys : Json → Json
  | .array items => .array (sortItems items)
  | .object members => .object (sortByKey (sortMembers members))
  | v => v
def sortItems : List Json → List Json
  | [] => []
  | v :: rest => sortKeys v :: sortItems rest
def sortMembers : List (String × Json) → List (String × Json)
  | [] => []
  | (k, v) :: rest => (k, sortKeys v) :: sortMembers rest
end

theorem sortMembers_eq_map (members : List (String × Json)) :
    sortMembers members = members.map fun m => (m.1, sortKeys m.2) := by
  induction members with
  | nil => rfl
  | cons m rest ih => rw [sortMembers, ih, List.map_cons]

/-! ## Text -/

/-- A character within a string literal. -/
def escapeChar (c : Char) : List Char :=
  if c = '"' then ['\\', '"']
  else if c = '\\' then ['\\', '\\']
  else if c = '\n' then ['\\', 'n']
  else if c = '\r' then ['\\', 'r']
  else if c = '\t' then ['\\', 't']
  else if c = '\x08' then ['\\', 'b']
  else if c = '\x0c' then ['\\', 'f']
  else if c.toNat < 32 then
    ['\\', 'u', '0', '0', Nat.digitChar (c.toNat / 16), Nat.digitChar (c.toNat % 16)]
  else [c]

def printString (s : String) : List Char := '"' :: s.toList.flatMap escapeChar ++ ['"']

/-- `open + ",".join(texts) + close`. -/
def enclose (opening closing : Char) (texts : List (List Char)) : List Char :=
  opening :: [','].intercalate texts ++ [closing]

mutual
def print : Json → List Char
  | .null => "null".toList
  | .bool b => if b then "true".toList else "false".toList
  | .int n => n.repr.toList
  | .float f => f.text
  | .string s => printString s
  | .array items => enclose '[' ']' (printItems items)
  | .object members => enclose '{' '}' (printMembers members)
def printItems : List Json → List (List Char)
  | [] => []
  | v :: rest => print v :: printItems rest
def printMembers : List (String × Json) → List (List Char)
  | [] => []
  | (k, v) :: rest => (printString k ++ ':' :: print v) :: printMembers rest
end

/-- `json.dumps(v, ensure_ascii=False, sort_keys=True, separators=(",", ":"))`. -/
def dumps (v : Json) : String := String.ofList (print (sortKeys v))

def printMember (m : String × Json) : List Char := printString m.1 ++ ':' :: print m.2

theorem printItems_eq_map (items : List Json) : printItems items = items.map print := by
  induction items with
  | nil => rfl
  | cons v rest ih => rw [printItems, ih, List.map_cons]

theorem printMembers_eq_map (members : List (String × Json)) :
    printMembers members = members.map printMember := by
  induction members with
  | nil => rfl
  | cons m rest ih => rw [printMembers, ih, List.map_cons, printMember]

/-! ## String literals -/

def hexValue (d : Char) : Nat := if d.isDigit then d.toNat - 48 else d.toNat - 87

theorem hexValue_digitChar : ∀ n < 16, hexValue (Nat.digitChar n) = n := by decide

/-- The first character that a part of a string literal stands for, and the rest. -/
def readChar : List Char → Option (Char × List Char)
  | '\\' :: 'n' :: rest => some ('\n', rest)
  | '\\' :: 'r' :: rest => some ('\r', rest)
  | '\\' :: 't' :: rest => some ('\t', rest)
  | '\\' :: 'b' :: rest => some ('\x08', rest)
  | '\\' :: 'f' :: rest => some ('\x0c', rest)
  | '\\' :: 'u' :: _ :: _ :: high :: low :: rest =>
      some (Char.ofNat (16 * hexValue high + hexValue low), rest)
  | '\\' :: c :: rest => some (c, rest)
  | c :: rest => some (c, rest)
  | [] => none

theorem readChar_escapeChar (c : Char) (rest : List Char) :
    readChar (escapeChar c ++ rest) = some (c, rest) := by
  unfold escapeChar
  split_ifs with hquote hslash hn hr ht hb hf hcontrol
  · rw [hquote]; rfl
  · rw [hslash]; rfl
  · rw [hn]; rfl
  · rw [hr]; rfl
  · rw [ht]; rfl
  · rw [hb]; rfl
  · rw [hf]; rfl
  · have hhigh : hexValue (Nat.digitChar (c.toNat / 16)) = c.toNat / 16 :=
      hexValue_digitChar _ (by omega)
    have hlow : hexValue (Nat.digitChar (c.toNat % 16)) = c.toNat % 16 :=
      hexValue_digitChar _ (by omega)
    have hchar : Char.ofNat (16 * (c.toNat / 16) + c.toNat % 16) = c := by
      rw [Nat.div_add_mod, Char.ofNat_toNat]
    simp only [List.cons_append, List.nil_append, readChar, hhigh, hlow, hchar]
  · rw [List.singleton_append]
    unfold readChar
    split <;> simp_all

/-- No character is written so that it ends the literal. -/
theorem escapeChar_ne_quote (c : Char) (rest tail : List Char) :
    escapeChar c ++ rest ≠ '"' :: tail := by
  unfold escapeChar
  split_ifs <;> simp_all

theorem escape_inj {cs cs' rest rest' : List Char}
    (h : cs.flatMap escapeChar ++ '"' :: rest = cs'.flatMap escapeChar ++ '"' :: rest') :
    cs = cs' ∧ rest = rest' := by
  induction cs generalizing cs' with
  | nil =>
      cases cs' with
      | nil => exact ⟨rfl, (List.cons.inj h).2⟩
      | cons c cs' =>
          rw [List.flatMap_cons, List.append_assoc] at h
          exact absurd h.symm (escapeChar_ne_quote _ _ _)
  | cons c cs ih =>
      cases cs' with
      | nil =>
          rw [List.flatMap_cons, List.append_assoc] at h
          exact absurd h (escapeChar_ne_quote _ _ _)
      | cons c' cs' =>
          rw [List.flatMap_cons, List.flatMap_cons, List.append_assoc, List.append_assoc] at h
          have hread := congrArg readChar h
          rw [readChar_escapeChar, readChar_escapeChar, Option.some.injEq, Prod.mk.injEq] at hread
          obtain ⟨rfl, hrest⟩ := hread
          obtain ⟨hcs, hrest⟩ := ih hrest
          exact ⟨by rw [hcs], hrest⟩

/-- A string literal determines the string. -/
theorem printString_inj {s s' : String} {rest rest' : List Char}
    (h : printString s ++ rest = printString s' ++ rest') : s = s' ∧ rest = rest' := by
  simp only [printString, List.cons_append, List.append_assoc, List.cons.injEq, true_and,
    List.nil_append] at h
  obtain ⟨hchars, hrest⟩ := escape_inj h
  exact ⟨String.ext hchars, hrest⟩

/-! ## Atoms -/

/-- What can stand after a value. -/
def isDelimiter (c : Char) : Bool := c = ',' || c = ']' || c = '}'

def Follows (rest : List Char) : Prop := ∀ c tail, rest = c :: tail → isDelimiter c = true

theorem Follows.cons {c : Char} (h : isDelimiter c = true) (rest : List Char) :
    Follows (c :: rest) := by
  rintro c' tail heq
  cases heq
  exact h

theorem Follows.nil : Follows [] := by
  rintro c tail heq
  cases heq

/-- Neither a delimiter nor the start of a string, an array or an object. -/
def isAtomChar (c : Char) : Bool := !(isDelimiter c || c = '"' || c = '[' || c = '{')

/-- The values that are written without a closing character. -/
def IsAtom : Json → Prop
  | .string _ | .array _ | .object _ => False
  | _ => True

theorem repr_toList (n : Int) :
    n.repr.toList =
      if 0 ≤ n then Nat.toDigits 10 n.toNat else '-' :: Nat.toDigits 10 (-n).toNat := by
  rw [Int.repr_eq_if]
  split
  · rw [Nat.toList_repr]
  · rw [String.toList_append, Nat.toList_repr]
    rfl

theorem repr_chars {n : Int} {c : Char} (h : c ∈ n.repr.toList) : c.isDigit = true ∨ c = '-' := by
  rw [repr_toList] at h
  split at h
  · exact .inl (Nat.isDigit_of_mem_toDigits (by decide) (by decide) h)
  · rcases List.mem_cons.mp h with h | h
    · exact .inr h
    · exact .inl (Nat.isDigit_of_mem_toDigits (by decide) (by decide) h)

theorem toDigits_inj {n m : Nat} (h : Nat.toDigits 10 n = Nat.toDigits 10 m) : n = m := by
  have hread := congrArg (fun cs => Nat.ofDigitChars 10 cs 0) h
  simpa only [Nat.ofDigitChars_ten_toDigits] using hread

theorem minus_notMem_toDigits (n : Nat) : '-' ∉ Nat.toDigits 10 n := by
  intro h
  have := Nat.isDigit_of_mem_toDigits (by decide) (by decide) h
  simp at this

theorem repr_inj {n m : Int} (h : n.repr.toList = m.repr.toList) : n = m := by
  rw [repr_toList, repr_toList] at h
  split at h <;> split at h
  · have := toDigits_inj h
    omega
  · exact absurd (h ▸ List.mem_cons_self) (minus_notMem_toDigits n.toNat)
  · exact absurd (h.symm ▸ List.mem_cons_self) (minus_notMem_toDigits m.toNat)
  · have := toDigits_inj (List.cons.inj h).2
    omega

theorem isAtomChar_of_number {c : Char} (h : c.isDigit = true ∨ c ∈ "+-.eNaIinfty".toList) :
    isAtomChar c = true := by
  rcases h with h | h
  · have hne : ∀ d : Char, d.isDigit = false → c ≠ d := by
      rintro d hd rfl
      rw [h] at hd
      cases hd
    simp [isAtomChar, isDelimiter, hne]
  · have hall : "+-.eNaIinfty".toList.all isAtomChar = true := by decide
    exact List.all_eq_true.mp hall c h

theorem float_chars (f : FloatText) {c : Char} (h : c ∈ f.text) :
    c.isDigit = true ∨ c ∈ "+-.eNaIinfty".toList := by
  have := List.all_eq_true.mp f.chars c h
  simpa using this

theorem print_atom {v : Json} (hv : IsAtom v) {c : Char} (h : c ∈ print v) :
    isAtomChar c = true := by
  cases v with
  | null =>
      have hall : (print null).all isAtomChar = true := by decide
      exact List.all_eq_true.mp hall c h
  | bool b =>
      have hall : (print (.bool b)).all isAtomChar = true := by cases b <;> decide
      exact List.all_eq_true.mp hall c h
  | int n =>
      refine isAtomChar_of_number ((repr_chars h).imp id ?_)
      rintro rfl
      decide
  | float f => exact isAtomChar_of_number (float_chars f h)
  | string s | array items | object members => exact hv.elim

theorem repr_ne_float (n : Int) (f : FloatText) : n.repr.toList ≠ f.text := by
  intro h
  obtain ⟨c, hc, hmark⟩ := List.any_eq_true.mp f.marked
  rw [← h] at hc
  rcases repr_chars hc with hdigit | rfl
  · simp [hdigit] at hmark
  · simp at hmark

def IsWord : Json → Prop
  | .null | .bool _ => True
  | _ => False

def IsNumber : Json → Prop
  | .int _ | .float _ => True
  | _ => False

theorem number_chars {v : Json} (hv : IsNumber v) {c : Char} (h : c ∈ print v) :
    c.isDigit = true ∨ c ∈ "+-.eNaIinfty".toList := by
  cases v with
  | int n =>
      refine (repr_chars h).imp id ?_
      rintro rfl
      decide
  | float f => exact float_chars f h
  | null | bool b | string s | array items | object members => exact hv.elim

/-- `null` and `false` have an "l", `true` has an "r", a number has neither. -/
theorem word_ne_number {v w : Json} (hv : IsWord v) (hw : IsNumber w) : print v ≠ print w := by
  intro h
  have hletter : 'l' ∈ print v ∨ 'r' ∈ print v := by
    cases v with
    | null => decide
    | bool b => cases b <;> decide
    | int n | float f | string s | array items | object members => exact hv.elim
  rw [h] at hletter
  rcases hletter with hl | hr
  · exact absurd (number_chars hw hl) (by decide)
  · exact absurd (number_chars hw hr) (by decide)

theorem atom_inj {v w : Json} (hv : IsAtom v) (hw : IsAtom w) (h : print v = print w) : v = w := by
  cases v with
  | null =>
      cases w with
      | null => rfl
      | bool b => cases b <;> exact absurd h (by decide)
      | int n | float f => exact absurd h (word_ne_number trivial trivial)
      | string s | array items | object members => exact hw.elim
  | bool b =>
      cases w with
      | null => cases b <;> exact absurd h (by decide)
      | bool b' => cases b <;> cases b' <;> first | rfl | exact absurd h (by decide)
      | int n | float f => exact absurd h (word_ne_number trivial trivial)
      | string s | array items | object members => exact hw.elim
  | int n =>
      cases w with
      | null | bool b => exact absurd h.symm (word_ne_number trivial trivial)
      | int m => rw [repr_inj h]
      | float f => exact absurd h (repr_ne_float n f)
      | string s | array items | object members => exact hw.elim
  | float f =>
      cases w with
      | null | bool b => exact absurd h.symm (word_ne_number trivial trivial)
      | int n => exact absurd h.symm (repr_ne_float n f)
      | float g =>
          obtain ⟨text, _, _⟩ := f
          obtain ⟨text', _, _⟩ := g
          obtain rfl : text = text' := h
          rfl
      | string s | array items | object members => exact hw.elim
  | string s | array items | object members => exact hv.elim

/-- An atom is all that stands before what follows it. -/
theorem takeWhile_atom {v : Json} (hv : IsAtom v) {rest : List Char} (hrest : Follows rest) :
    (print v ++ rest).takeWhile isAtomChar = print v := by
  rw [List.takeWhile_append_of_pos fun c hc => print_atom hv hc]
  have hnone : rest.takeWhile isAtomChar = [] := by
    cases rest with
    | nil => rfl
    | cons c tail =>
        have hdelimiter := hrest c tail rfl
        rw [List.takeWhile_cons_of_neg (by simp [isAtomChar, hdelimiter])]
  rw [hnone, List.append_nil]

/-! ## Lists of texts -/

/-- A writer whose text, followed by a delimiter, determines what was written. -/
def Readable {α : Type} (enc : α → List Char) (x : α) : Prop :=
  ∀ y rest rest', Follows rest → Follows rest' → enc x ++ rest = enc y ++ rest' →
    x = y ∧ rest = rest'

/-- What stands after the first of the texts. -/
def afterFirst (closing : Char) (texts : List (List Char)) (rest : List Char) : List Char :=
  match texts with
  | [] => closing :: rest
  | _ :: _ => ',' :: ([','].intercalate texts ++ closing :: rest)

theorem intercalate_cons_afterFirst (text : List Char) (texts : List (List Char)) (closing : Char)
    (rest : List Char) :
    [','].intercalate (text :: texts) ++ closing :: rest = text ++ afterFirst closing texts rest := by
  cases texts with
  | nil => rw [List.intercalate_singleton, afterFirst]
  | cons text' texts =>
      rw [List.intercalate_cons_cons, afterFirst, List.append_assoc, List.append_assoc]
      rfl

theorem follows_afterFirst {closing : Char} (hclosing : isDelimiter closing = true)
    (texts : List (List Char)) (rest : List Char) : Follows (afterFirst closing texts rest) := by
  cases texts with
  | nil => exact Follows.cons hclosing rest
  | cons text texts => exact Follows.cons rfl _

theorem texts_inj {α : Type} {enc : α → List Char} {closing : Char}
    (hclosing : isDelimiter closing = true) (hcomma : closing ≠ ',')
    (hstart : ∀ x t t', enc x ++ t ≠ closing :: t') {xs ys : List α}
    (hread : ∀ x ∈ xs, Readable enc x) {rest rest' : List Char}
    (h : [','].intercalate (xs.map enc) ++ closing :: rest =
      [','].intercalate (ys.map enc) ++ closing :: rest') : xs = ys ∧ rest = rest' := by
  induction xs generalizing ys with
  | nil =>
      cases ys with
      | nil => exact ⟨rfl, (List.cons.inj h).2⟩
      | cons y ys =>
          rw [List.map_cons, intercalate_cons_afterFirst] at h
          exact absurd h.symm (hstart _ _ _)
  | cons x xs ih =>
      cases ys with
      | nil =>
          rw [List.map_cons, intercalate_cons_afterFirst] at h
          exact absurd h (hstart _ _ _)
      | cons y ys =>
          rw [List.map_cons, List.map_cons, intercalate_cons_afterFirst,
            intercalate_cons_afterFirst] at h
          obtain ⟨rfl, hafter⟩ := hread x List.mem_cons_self _ _ _
            (follows_afterFirst hclosing _ _) (follows_afterFirst hclosing _ _) h
          -- Both lists end here, or both go on after a comma.
          cases xs with
          | nil =>
              cases ys with
              | nil => exact ⟨rfl, (List.cons.inj hafter).2⟩
              | cons y' ys => exact absurd (List.cons.inj hafter).1 hcomma
          | cons x' xs =>
              cases ys with
              | nil => exact absurd (List.cons.inj hafter).1.symm hcomma
              | cons y' ys =>
                  obtain ⟨htail, hrest⟩ := ih (fun z hz => hread z (List.mem_cons_of_mem _ hz))
                    (List.cons.inj hafter).2
                  exact ⟨by rw [htail], hrest⟩

/-! ## Canonical text determines the value -/

theorem print_ne_nil (v : Json) : print v ≠ [] := by
  cases v with
  | null => decide
  | bool b => cases b <;> decide
  | int n =>
      rw [print, repr_toList]
      split
      · exact Nat.toDigits_ne_nil
      · exact List.cons_ne_nil _ _
  | float f =>
      obtain ⟨c, hc, -⟩ := List.any_eq_true.mp f.marked
      exact List.ne_nil_of_mem hc
  | string s | array items | object members => exact List.cons_ne_nil _ _

/-- The first character of the text of a value tells its form. -/
theorem print_head (v : Json) {c : Char} {rest tail : List Char} (h : print v ++ rest = c :: tail) :
    (c = '"' ∧ ∃ s, v = .string s) ∨ (c = '[' ∧ ∃ items, v = .array items) ∨
      (c = '{' ∧ ∃ members, v = .object members) ∨ (isAtomChar c = true ∧ IsAtom v) := by
  have hatom : IsAtom v → isAtomChar c = true := by
    intro hv
    refine print_atom hv ?_
    obtain ⟨d, t, hdt⟩ := List.exists_cons_of_ne_nil (print_ne_nil v)
    rw [hdt] at h ⊢
    rw [(List.cons.inj h).1]
    exact List.mem_cons_self
  cases v with
  | string s => exact .inl ⟨(List.cons.inj h).1.symm, s, rfl⟩
  | array items => exact .inr (.inl ⟨(List.cons.inj h).1.symm, items, rfl⟩)
  | object members => exact .inr (.inr (.inl ⟨(List.cons.inj h).1.symm, members, rfl⟩))
  | null | bool b | int n | float f => exact .inr (.inr (.inr ⟨hatom trivial, trivial⟩))

theorem not_isAtomChar_delimiter {c : Char} (h : isDelimiter c = true) : isAtomChar c = false := by
  simp [isAtomChar, h]

theorem print_ne_delimiter {c : Char} (hc : isDelimiter c = true) (v : Json)
    (rest tail : List Char) : print v ++ rest ≠ c :: tail := by
  intro h
  rcases print_head v h with ⟨rfl, -⟩ | ⟨rfl, -⟩ | ⟨rfl, -⟩ | ⟨hatom, -⟩
  · cases hc
  · cases hc
  · cases hc
  · rw [not_isAtomChar_delimiter hc] at hatom
    cases hatom

theorem atom_readable {v : Json} (hv : IsAtom v) : Readable print v := by
  intro w rest rest' hrest hrest' h
  have hw : IsAtom w := by
    obtain ⟨c, tail, hctail⟩ := List.exists_cons_of_ne_nil (print_ne_nil v)
    have hc : isAtomChar c = true := print_atom hv (hctail ▸ List.mem_cons_self)
    rw [hctail] at h
    rcases print_head w h.symm with ⟨rfl, -⟩ | ⟨rfl, -⟩ | ⟨rfl, -⟩ | ⟨-, hw⟩
    · cases hc
    · cases hc
    · cases hc
    · exact hw
  have htexts : print v = print w := by
    rw [← takeWhile_atom hv hrest, h, takeWhile_atom hw hrest']
  refine ⟨atom_inj hv hw htexts, ?_⟩
  rwa [htexts, List.append_cancel_left_eq] at h

theorem member_readable {m : String × Json} (hm : Readable print m.2) : Readable printMember m := by
  rintro ⟨k, v⟩ rest rest' hrest hrest' h
  simp only [printMember, List.append_assoc] at h
  obtain ⟨hkey, h⟩ := printString_inj h
  obtain ⟨hvalue, hrests⟩ := hm v rest rest' hrest hrest' (List.cons.inj h).2
  exact ⟨Prod.ext hkey hvalue, hrests⟩

/-- **Unique reading.** A text that is followed by a delimiter, or by nothing,
    is the text of one value. -/
theorem print_readable (v : Json) : Readable print v := by
  induction v with
  | null | bool b | int n | float f => exact atom_readable trivial
  | string s =>
      intro w rest rest' _ _ h
      rcases print_head w h.symm with ⟨-, s', rfl⟩ | ⟨hc, -⟩ | ⟨hc, -⟩ | ⟨hc, -⟩
      · obtain ⟨hs, hrests⟩ := printString_inj h
        exact ⟨by rw [hs], hrests⟩
      · cases hc
      · cases hc
      · cases hc
  | array items ih =>
      intro w rest rest' _ _ h
      rcases print_head w h.symm with ⟨hc, -⟩ | ⟨-, items', rfl⟩ | ⟨hc, -⟩ | ⟨hc, -⟩
      · cases hc
      · simp only [print, enclose, printItems_eq_map, List.cons_append, List.append_assoc,
          List.cons.injEq, true_and, List.nil_append] at h
        obtain ⟨hitems, hrests⟩ := texts_inj rfl (by decide) (print_ne_delimiter rfl) ih h
        exact ⟨by rw [hitems], hrests⟩
      · cases hc
      · cases hc
  | object members ih =>
      intro w rest rest' _ _ h
      rcases print_head w h.symm with ⟨hc, -⟩ | ⟨hc, -⟩ | ⟨-, members', rfl⟩ | ⟨hc, -⟩
      · cases hc
      · cases hc
      · simp only [print, enclose, printMembers_eq_map, List.cons_append, List.append_assoc,
          List.cons.injEq, true_and, List.nil_append] at h
        have hstart : ∀ (m : String × Json) (t t' : List Char), printMember m ++ t ≠ '}' :: t' := by
          intro m t t' heq
          cases (List.cons.inj heq).1
        obtain ⟨hmembers, hrests⟩ := texts_inj rfl (by decide) hstart
          (fun m hm => member_readable (ih m hm)) h
        exact ⟨by rw [hmembers], hrests⟩
      · cases hc

theorem print_inj {v w : Json} (h : print v = print w) : v = w := by
  refine (print_readable v w [] [] Follows.nil Follows.nil ?_).1
  rw [h]

/-- Two values have the same canonical text just when they are the same but for
    the order of their members. -/
theorem dumps_inj {v w : Json} : dumps v = dumps w ↔ sortKeys v = sortKeys w := by
  refine ⟨fun h => print_inj (String.ofList_inj.mp h), fun h => ?_⟩
  rw [dumps, dumps, h]

/-! ## Members -/

theorem sortByKey_perm (members : List (String × Json)) : (sortByKey members).Perm members :=
  List.perm_insertionSort _ members

theorem sortByKey_sorted (members : List (String × Json)) :
    (sortByKey members).Pairwise fun m n => m.1 ≤ n.1 := by
  have htotal : Std.Total fun m n : String × Json => m.1 ≤ n.1 := ⟨fun m n => le_total m.1 n.1⟩
  have htrans : IsTrans (String × Json) fun m n => m.1 ≤ n.1 := ⟨fun _ _ _ => le_trans⟩
  exact List.pairwise_insertionSort _ members

/-- Objects agree when they have the same members, in whatever order, up to the order in their
    values. -/
theorem sortKeys_perm_iff {ms ms' : List (String × Json)} (hnodup : (ms.map Prod.fst).Nodup) :
    sortKeys (.object ms) = sortKeys (.object ms') ↔ (sortMembers ms).Perm (sortMembers ms') := by
  rw [sortKeys, sortKeys, object.injEq]
  refine ⟨fun h => ?_, fun hperm => ?_⟩
  · exact (sortByKey_perm _).symm.trans (h ▸ sortByKey_perm _)
  have hkeys : ((sortMembers ms).map Prod.fst).Nodup := by
    rwa [sortMembers_eq_map, List.map_map]
  refine List.Perm.eq_of_pairwise ?_ (sortByKey_sorted _) (sortByKey_sorted _) ?_
  · -- Two members with the same key are the same member.
    intro m n hm hn hle hge
    rw [(sortByKey_perm _).mem_iff] at hm hn
    rw [← hperm.mem_iff] at hn
    exact List.inj_on_of_nodup_map hkeys hm hn (le_antisymm hle hge)
  · exact (sortByKey_perm _).trans (hperm.trans (sortByKey_perm _).symm)

/-- The order of the members does not matter to the canonical text. -/
theorem sortKeys_perm {ms ms' : List (String × Json)} (hnodup : (ms.map Prod.fst).Nodup)
    (h : ms.Perm ms') : sortKeys (.object ms) = sortKeys (.object ms') := by
  rw [sortKeys_perm_iff hnodup, sortMembers_eq_map, sortMembers_eq_map]
  exact h.map _

/-- The members of objects that agree have values that agree. -/
theorem sortKeys_member {ms ms' : List (String × Json)} (hnodup : (ms'.map Prod.fst).Nodup)
    (h : sortKeys (.object ms) = sortKeys (.object ms')) {k : String} {v v' : Json}
    (hmem : (k, v) ∈ ms) (hmem' : (k, v') ∈ ms') : sortKeys v = sortKeys v' := by
  rw [sortKeys, sortKeys, object.injEq] at h
  have hsorted : (k, sortKeys v) ∈ sortMembers ms := by
    rw [sortMembers_eq_map]
    exact List.mem_map_of_mem hmem
  rw [← (sortByKey_perm _).mem_iff, h, (sortByKey_perm _).mem_iff, sortMembers_eq_map,
    List.mem_map] at hsorted
  obtain ⟨⟨k', w⟩, hin, heq⟩ := hsorted
  obtain ⟨rfl, hw⟩ := Prod.mk.inj heq
  have hsame := List.inj_on_of_nodup_map hnodup hin hmem' rfl
  rw [← hw, (Prod.mk.inj hsame).2]

end Json
end HermesPlatform
