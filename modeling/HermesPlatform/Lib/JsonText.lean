/-
  HermesPlatform.Lib.JsonText

  JSON text and back: `json.dumps` with and without its ASCII escapes, and
  `json.loads`.

  The text of a value is read back as the value (`loads_dumpsAscii`, `readText_print`);
  where the writer sorts the members, up to their order.  A string is a sequence of Unicode
  scalar values, so the reader refuses an escape of half a surrogate pair.

  How a text in another encoding than ASCII is decoded, and how a float is read, are
  parameters.
-/

import HermesPlatform.Lib.Json
import HermesPlatform.Lib.Python
import Mathlib.Data.Bool.AllAny

namespace HermesPlatform
namespace Json

open Python

/-! ## Writing -/

/-- The UTF-16 code units of a character. -/
def units (c : Char) : List Nat :=
  if c.toNat < 0x10000 then [c.toNat]
  else [0xd800 + (c.toNat - 0x10000) / 1024, 0xdc00 + (c.toNat - 0x10000) % 1024]

/-- `"\\u{0:04x}".format(n)`. -/
def escapeUnit (n : Nat) : List Char :=
  ['\\', 'u', Nat.digitChar (n / 4096), Nat.digitChar (n / 256 % 16), Nat.digitChar (n / 16 % 16),
    Nat.digitChar (n % 16)]

/-- The escape of a character that has a letter of its own. -/
def shortEscape (c : Char) : Option Char :=
  if c = '"' then some '"'
  else if c = '\\' then some '\\'
  else if c = '\n' then some 'n'
  else if c = '\r' then some 'r'
  else if c = '\t' then some 't'
  else if c = '\x08' then some 'b'
  else if c = '\x0c' then some 'f'
  else none

/-- A character within a string literal, in ASCII. -/
def escapeAscii (c : Char) : List Char :=
  match shortEscape c with
  | some e => ['\\', e]
  | none => if 32 ≤ c.toNat ∧ c.toNat ≤ 126 then [c] else (units c).flatMap escapeUnit

def quoteAscii (s : String) : List Char := '"' :: s.toList.flatMap escapeAscii ++ ['"']

mutual
/-- The text of a value, with the separators "," and ":". -/
def printAscii : Json → List Char
  | .string s => quoteAscii s
  | .array items => enclose '[' ']' (printAsciiItems items)
  | .object members => enclose '{' '}' (printAsciiMembers members)
  | v => print v
def printAsciiItems : List Json → List (List Char)
  | [] => []
  | v :: rest => printAscii v :: printAsciiItems rest
def printAsciiMembers : List (String × Json) → List (List Char)
  | [] => []
  | (k, v) :: rest => (quoteAscii k ++ ':' :: printAscii v) :: printAsciiMembers rest
end

def printAsciiMember (m : String × Json) : List Char := quoteAscii m.1 ++ ':' :: printAscii m.2

theorem printAsciiItems_eq_map (items : List Json) : printAsciiItems items = items.map printAscii := by
  induction items with
  | nil => rfl
  | cons v rest ih => rw [printAsciiItems, ih, List.map_cons]

theorem printAsciiMembers_eq_map (members : List (String × Json)) :
    printAsciiMembers members = members.map printAsciiMember := by
  induction members with
  | nil => rfl
  | cons m rest ih => rw [printAsciiMembers, ih, List.map_cons, printAsciiMember]

/-- `json.dumps(v, sort_keys=True, separators=(",", ":"))`. -/
def dumpsAscii (v : Json) : List Char := printAscii (sortKeys v)

section Escapes

variable (esc : Char → List Char)

/-- A string literal with some escapes for its characters. -/
def quoteWith (s : String) : List Char := '"' :: s.toList.flatMap esc ++ ['"']

mutual
/-- The text of a value, with the separators "," and ":" and these escapes. -/
def printWith : Json → List Char
  | .string s => quoteWith esc s
  | .array items => enclose '[' ']' (printItemsWith items)
  | .object members => enclose '{' '}' (printMembersWith members)
  | v => print v
def printItemsWith : List Json → List (List Char)
  | [] => []
  | v :: rest => printWith v :: printItemsWith rest
def printMembersWith : List (String × Json) → List (List Char)
  | [] => []
  | (k, v) :: rest => (quoteWith esc k ++ ':' :: printWith v) :: printMembersWith rest
end

def printMemberWith (m : String × Json) : List Char :=
  quoteWith esc m.1 ++ ':' :: printWith esc m.2

theorem printItemsWith_eq_map (items : List Json) :
    printItemsWith esc items = items.map (printWith esc) := by
  induction items with
  | nil => rfl
  | cons v rest ih => rw [printItemsWith, ih, List.map_cons]

theorem printMembersWith_eq_map (members : List (String × Json)) :
    printMembersWith esc members = members.map (printMemberWith esc) := by
  induction members with
  | nil => rfl
  | cons m rest ih => rw [printMembersWith, ih, List.map_cons, printMemberWith]

end Escapes

/-- `json.dumps` with its ASCII escapes. -/
theorem printWith_escapeAscii (v : Json) : printWith escapeAscii v = printAscii v := by
  induction v with
  | null => rfl
  | bool b => rfl
  | int n => rfl
  | float f => rfl
  | string s => rfl
  | array items ih =>
      rw [printWith, printAscii, printItemsWith_eq_map, printAsciiItems_eq_map,
        List.map_congr_left ih]
  | object members ih =>
      have hmembers : members.map (printMemberWith escapeAscii) = members.map printAsciiMember := by
        refine List.map_congr_left fun m hm => ?_
        rw [printMemberWith, printAsciiMember, ih m hm]
        rfl
      rw [printWith, printAscii, printMembersWith_eq_map, printAsciiMembers_eq_map, hmembers]

/-- `json.dumps` with `ensure_ascii=False`. -/
theorem printWith_escapeChar (v : Json) : printWith escapeChar v = print v := by
  induction v with
  | null => rfl
  | bool b => rfl
  | int n => rfl
  | float f => rfl
  | string s => rfl
  | array items ih =>
      rw [printWith, print, printItemsWith_eq_map, printItems_eq_map, List.map_congr_left ih]
  | object members ih =>
      have hmembers : members.map (printMemberWith escapeChar) = members.map printMember := by
        refine List.map_congr_left fun m hm => ?_
        rw [printMemberWith, printMember, ih m hm]
        rfl
      rw [printWith, print, printMembersWith_eq_map, printMembers_eq_map, hmembers]

/-! ## Reading -/

/-- What reading a text rests on: the text of bytes that are not all ASCII, and the
    value of a float. -/
structure Decoders where
  text : List UInt8 → Option (List Char)
  float : List Char → FloatText

/-- Decoders of ASCII texts, to which every float is the same. -/
def Decoders.ascii : Decoders := ⟨fun _ => none, fun _ => ⟨['0', '.', '0'], by decide, by decide⟩⟩

def isBlank (c : Char) : Bool := c = ' ' || c = '\t' || c = '\n' || c = '\r'

def skip (cs : List Char) : List Char := cs.dropWhile isBlank

def hexDigit? (c : Char) : Option Nat :=
  if c.isDigit then some (c.toNat - 48)
  else if 'a' ≤ c ∧ c ≤ 'f' then some (c.toNat - 87)
  else if 'A' ≤ c ∧ c ≤ 'F' then some (c.toNat - 55)
  else none

def readUnit (a b c d : Char) : Option Nat :=
  match hexDigit? a, hexDigit? b, hexDigit? c, hexDigit? d with
  | some a, some b, some c, some d => some (a * 4096 + b * 256 + c * 16 + d)
  | _, _, _, _ => none

def readEscape (c : Char) : Option Nat :=
  if c = '"' ∨ c = '\\' ∨ c = '/' then some c.toNat
  else if c = 'n' then some 10
  else if c = 'r' then some 13
  else if c = 't' then some 9
  else if c = 'b' then some 8
  else if c = 'f' then some 12
  else none

/-- The code units of a string literal behind its first quote, and what follows it. -/
def scanString : List Char → Option (List Nat × List Char)
  | [] => none
  | c :: rest =>
      if c = '"' then some ([], rest)
      else if c = '\\' then
        match rest with
        | [] => none
        | e :: rest =>
            if e = 'u' then
              match rest with
              | h₁ :: h₂ :: h₃ :: h₄ :: rest =>
                  match readUnit h₁ h₂ h₃ h₄ with
                  | none => none
                  | some u => (scanString rest).map fun r => (u :: r.1, r.2)
              | _ => none
            else
              match readEscape e with
              | none => none
              | some u => (scanString rest).map fun r => (u :: r.1, r.2)
      else if c.toNat < 32 then none
      else (scanString rest).map fun r => (c.toNat :: r.1, r.2)

def isHighSurrogate (u : Nat) : Bool := 0xd800 ≤ u && u ≤ 0xdbff

def isLowSurrogate (u : Nat) : Bool := 0xdc00 ≤ u && u ≤ 0xdfff

/-- The characters of code units; half a surrogate pair is no character. -/
def joinUnits : List Nat → Option (List Char)
  | [] => some []
  | u :: us =>
      if isHighSurrogate u then
        match us with
        | [] => none
        | v :: us =>
            if isLowSurrogate v then
              (joinUnits us).map (Char.ofNat (0x10000 + (u - 0xd800) * 1024 + (v - 0xdc00)) :: ·)
            else none
      else if isLowSurrogate u then none
      else (joinUnits us).map (Char.ofNat u :: ·)

/-- A string behind its first quote. -/
def readString (cs : List Char) : Option (String × List Char) :=
  match scanString cs with
  | none => none
  | some (us, rest) => (joinUnits us).map fun s => (String.ofList s, rest)

/-- `0|[1-9]\d*`. -/
def readDigits (cs : List Char) : Option (List Char × List Char) :=
  if cs.head? = some '0' then some (['0'], cs.tail)
  else if cs.takeWhile Char.isDigit = [] then none
  else some (cs.takeWhile Char.isDigit, cs.dropWhile Char.isDigit)

/-- `(\.\d+)?`. -/
def readFraction (cs : List Char) : List Char × List Char :=
  match cs with
  | '.' :: rest =>
      if rest.takeWhile Char.isDigit = [] then ([], cs)
      else ('.' :: rest.takeWhile Char.isDigit, rest.dropWhile Char.isDigit)
  | _ => ([], cs)

/-- The sign of an exponent. -/
def readSign (cs : List Char) : List Char × List Char :=
  match cs with
  | '+' :: rest => (['+'], rest)
  | '-' :: rest => (['-'], rest)
  | _ => ([], cs)

/-- `([eE][-+]?\d+)?`. -/
def readExponent (cs : List Char) : List Char × List Char :=
  match cs with
  | e :: rest =>
      if e = 'e' ∨ e = 'E' then
        let (sign, rest) := readSign rest
        if rest.takeWhile Char.isDigit = [] then ([], cs)
        else (e :: sign ++ rest.takeWhile Char.isDigit, rest.dropWhile Char.isDigit)
      else ([], cs)
  | [] => ([], cs)

/-- A number: the digits, a fraction and an exponent behind the minus sign. -/
def readNumber (env : Decoders) (cs : List Char) : Option (Json × List Char) :=
  let negative : Bool := cs.head? = some '-'
  match readDigits (if negative then cs.tail else cs) with
  | none => none
  | some (digits, rest) =>
      let (fraction, rest) := readFraction rest
      let (exponent, rest) := readExponent rest
      let value : Int := Nat.ofDigitChars 10 digits 0
      if fraction = [] ∧ exponent = [] then some (.int (if negative then -value else value), rest)
      else
        some (.float (env.float ((if negative then ['-'] else []) ++ digits ++ fraction ++ exponent)), rest)

/-- The words that stand for a value. -/
def valueWords : List (List Char × Json) :=
  [("null".toList, .null), ("true".toList, .bool true), ("false".toList, .bool false),
    ("NaN".toList, .float ⟨"NaN".toList, by decide, by decide⟩),
    ("Infinity".toList, .float ⟨"Infinity".toList, by decide, by decide⟩),
    ("-Infinity".toList, .float ⟨"-Infinity".toList, by decide, by decide⟩)]

def readWord (cs : List Char) : Option (Json × List Char) :=
  (valueWords.find? fun w => w.1.isPrefixOf cs).map fun w => (w.2, cs.drop w.1.length)

mutual
/-- A value at the start of a text, and what follows it.  The first argument bounds
    the depth of the recursion. -/
def readValue (env : Decoders) : Nat → List Char → Option (Json × List Char)
  | 0, _ => none
  | _ + 1, [] => none
  | n + 1, c :: rest =>
      if c = '"' then (readString rest).map fun r => (.string r.1, r.2)
      else if c = '[' then
        if (skip rest).head? = some ']' then some (.array [], (skip rest).tail)
        else (readItems env n (skip rest)).map fun r => (.array r.1, r.2)
      else if c = '{' then
        if (skip rest).head? = some '}' then some (.object [], (skip rest).tail)
        else (readMembers env n (skip rest)).map fun r => (.object (Dict.ofPairs r.1).entries, r.2)
      else
        match readNumber env (c :: rest) with
        | some r => some r
        | none => readWord (c :: rest)
/-- The items of an array, up to its bracket. -/
def readItems (env : Decoders) : Nat → List Char → Option (List Json × List Char)
  | 0, _ => none
  | n + 1, cs =>
      match readValue env n cs with
      | none => none
      | some (v, rest) =>
          match skip rest with
          | ',' :: rest => (readItems env n (skip rest)).map fun r => (v :: r.1, r.2)
          | ']' :: rest => some ([v], rest)
          | _ => none
/-- The members of an object, up to its brace. -/
def readMembers (env : Decoders) : Nat → List Char → Option (List (String × Json) × List Char)
  | 0, _ => none
  | _ + 1, [] => none
  | n + 1, c :: cs =>
      if c = '"' then
        match readString cs with
        | none => none
        | some (k, rest) =>
            match skip rest with
            | ':' :: rest =>
                match readValue env n (skip rest) with
                | none => none
                | some (v, rest) =>
                    match skip rest with
                    | ',' :: rest => (readMembers env n (skip rest)).map fun r => ((k, v) :: r.1, r.2)
                    | '}' :: rest => some ([(k, v)], rest)
                    | _ => none
            | _ => none
      else none
end

/-- The characters of the bytes of a text. -/
def decodeText (env : Decoders) (bytes : List UInt8) : Option (List Char) :=
  if bytes.all fun b => 0 < b.toNat && b.toNat < 128 then some (bytes.map fun b => Char.ofNat b.toNat)
  else env.text bytes

/-- `json.loads(bytes)`. -/
def loads (env : Decoders) (bytes : List UInt8) : Option Json :=
  match decodeText env bytes with
  | none => none
  | some cs =>
      match readValue env (2 * cs.length + 2) (skip cs) with
      | none => none
      | some (v, rest) => if skip rest = [] then some v else none

/-- `json.loads(text)` of a string. -/
def readText (env : Decoders) (cs : List Char) : Option Json :=
  match readValue env (2 * cs.length + 2) (skip cs) with
  | none => none
  | some (v, rest) => if skip rest = [] then some v else none

/-- `text.encode("ascii")`. -/
def asciiBytes (text : List Char) : List UInt8 := text.map fun c => UInt8.ofNat c.toNat

/-! ## Strings -/

theorem hexDigit?_digitChar : ∀ n < 16, hexDigit? (Nat.digitChar n) = some n := by decide

theorem scanString_escapeUnit {n : Nat} (hn : n < 65536) (rest : List Char) :
    scanString (escapeUnit n ++ rest) = (scanString rest).map fun r => (n :: r.1, r.2) := by
  have hread : readUnit (Nat.digitChar (n / 4096)) (Nat.digitChar (n / 256 % 16))
      (Nat.digitChar (n / 16 % 16)) (Nat.digitChar (n % 16)) = some n := by
    rw [readUnit, hexDigit?_digitChar _ (by omega), hexDigit?_digitChar _ (by omega),
      hexDigit?_digitChar _ (by omega), hexDigit?_digitChar _ (by omega)]
    simp only [Option.some.injEq]
    omega
  show scanString ('\\' :: 'u' :: Nat.digitChar (n / 4096) :: Nat.digitChar (n / 256 % 16) ::
    Nat.digitChar (n / 16 % 16) :: Nat.digitChar (n % 16) :: rest) = _
  rw [scanString.eq_def]
  dsimp only
  rw [if_neg (by decide), if_pos rfl, if_pos rfl, hread]

/-- The value of a character is below the surrogates, or above them. -/
theorem toNat_cases (c : Char) : c.toNat < 0xd800 ∨ 0xdfff < c.toNat ∧ c.toNat < 0x110000 := c.valid

theorem units_lt (c : Char) : ∀ u ∈ units c, u < 65536 := by
  have hvalid := toNat_cases c
  intro u hu
  unfold units at hu
  split at hu
  · rename_i hsmall
    rwa [List.mem_singleton.mp hu]
  · simp only [List.mem_cons, List.not_mem_nil, or_false] at hu
    omega

theorem scanString_escapeUnits {us : List Nat} (hus : ∀ u ∈ us, u < 65536) (rest : List Char) :
    scanString (us.flatMap escapeUnit ++ rest) =
      (scanString rest).map fun r => (us ++ r.1, r.2) := by
  induction us with
  | nil => simp
  | cons u us ih =>
      obtain ⟨hu, hus⟩ := List.forall_mem_cons.mp hus
      rw [List.flatMap_cons, List.append_assoc, scanString_escapeUnit hu, ih hus, Option.map_map]
      rfl

theorem shortEscape_spec {c e : Char} (h : shortEscape c = some e) :
    e ≠ 'u' ∧ readEscape e = some c.toNat ∧ units c = [c.toNat] := by
  unfold shortEscape at h
  repeat' split at h
  all_goals first | (cases h; done) | (subst_vars; cases h; exact ⟨by decide, by decide, by decide⟩)

theorem shortEscape_none {c : Char} (h : shortEscape c = none) : c ≠ '"' ∧ c ≠ '\\' := by
  refine ⟨?_, ?_⟩
  · rintro rfl
    cases h
  · rintro rfl
    cases h

theorem scanString_escapeAscii (c : Char) (rest : List Char) :
    scanString (escapeAscii c ++ rest) = (scanString rest).map fun r => (units c ++ r.1, r.2) := by
  unfold escapeAscii
  cases hshort : shortEscape c with
  | some e =>
      obtain ⟨hu, hread, hunits⟩ := shortEscape_spec hshort
      show scanString ('\\' :: e :: rest) = _
      rw [scanString.eq_def]
      dsimp only
      rw [if_neg (by decide), if_pos rfl, if_neg hu, hread, hunits]
      rfl
  | none =>
      obtain ⟨hquote, hbackslash⟩ := shortEscape_none hshort
      dsimp only
      split
      · rename_i hprintable
        have hunits : units c = [c.toNat] := if_pos (by omega)
        show scanString (c :: rest) = _
        rw [scanString.eq_def]
        dsimp only
        rw [if_neg hquote, if_neg hbackslash, if_neg (by omega), hunits]
        rfl
      · exact scanString_escapeUnits (units_lt c) rest

/-- Each character is read back from its escape. -/
def Escapes (esc : Char → List Char) : Prop :=
  ∀ c, ∃ us, (∀ vs, joinUnits (us ++ vs) = (joinUnits vs).map (c :: ·)) ∧
    ∀ rest, scanString (esc c ++ rest) = (scanString rest).map fun r => (us ++ r.1, r.2)

theorem scanString_raw {c : Char} (hquote : c ≠ '"') (hbackslash : c ≠ '\\')
    (hcontrol : ¬ c.toNat < 32) (rest : List Char) :
    scanString (c :: rest) = (scanString rest).map fun r => (c.toNat :: r.1, r.2) := by
  rw [scanString.eq_def]
  dsimp only
  rw [if_neg hquote, if_neg hbackslash, if_neg hcontrol]

theorem joinUnits_units (c : Char) (us : List Nat) :
    joinUnits (units c ++ us) = (joinUnits us).map (c :: ·) := by
  have hvalid := toNat_cases c
  unfold units
  split
  · rename_i hsmall
    have hhigh : isHighSurrogate c.toNat = false := by
      simp only [isHighSurrogate, Bool.and_eq_false_iff, decide_eq_false_iff_not]
      omega
    have hlow : isLowSurrogate c.toNat = false := by
      simp only [isLowSurrogate, Bool.and_eq_false_iff, decide_eq_false_iff_not]
      omega
    show joinUnits (c.toNat :: us) = _
    rw [joinUnits.eq_def]
    dsimp only
    rw [hhigh, hlow, Char.ofNat_toNat]
    rfl
  · rename_i hlarge
    have hhigh : isHighSurrogate (0xd800 + (c.toNat - 0x10000) / 1024) = true := by
      simp only [isHighSurrogate, Bool.and_eq_true, decide_eq_true_eq]
      omega
    have hlow : isLowSurrogate (0xdc00 + (c.toNat - 0x10000) % 1024) = true := by
      simp only [isLowSurrogate, Bool.and_eq_true, decide_eq_true_eq]
      omega
    have hvalue : 0x10000 + (0xd800 + (c.toNat - 0x10000) / 1024 - 0xd800) * 1024 +
        (0xdc00 + (c.toNat - 0x10000) % 1024 - 0xdc00) = c.toNat := by omega
    show joinUnits ((0xd800 + (c.toNat - 0x10000) / 1024) ::
      (0xdc00 + (c.toNat - 0x10000) % 1024) :: us) = _
    rw [joinUnits.eq_def]
    dsimp only
    rw [hhigh, if_pos rfl, hlow, if_pos rfl, hvalue, Char.ofNat_toNat]

theorem escapes_escapeAscii : Escapes escapeAscii := fun c =>
  ⟨units c, joinUnits_units c, scanString_escapeAscii c⟩

/-- A character beyond the first plane stands for itself as one code point. -/
theorem joinUnits_char (c : Char) (us : List Nat) :
    joinUnits (c.toNat :: us) = (joinUnits us).map (c :: ·) := by
  have hvalid := toNat_cases c
  have hhigh : isHighSurrogate c.toNat = false := by
    simp only [isHighSurrogate, Bool.and_eq_false_iff, decide_eq_false_iff_not]
    omega
  have hlow : isLowSurrogate c.toNat = false := by
    simp only [isLowSurrogate, Bool.and_eq_false_iff, decide_eq_false_iff_not]
    omega
  rw [joinUnits.eq_def]
  dsimp only
  rw [hhigh, hlow, Char.ofNat_toNat]
  rfl

theorem scanString_escape {e : Char} {u : Nat} (hu : e ≠ 'u') (hread : readEscape e = some u)
    (rest : List Char) :
    scanString ('\\' :: e :: rest) = (scanString rest).map fun r => (u :: r.1, r.2) := by
  rw [scanString.eq_def]
  dsimp only
  rw [if_neg (by decide), if_pos rfl, if_neg hu, hread]

/-- A control character without a letter of its own. -/
theorem escapeChar_control {c : Char} (h : c.toNat < 32) :
    ['\\', 'u', '0', '0', Nat.digitChar (c.toNat / 16), Nat.digitChar (c.toNat % 16)] =
      escapeUnit c.toNat := by
  have h1 : c.toNat / 4096 = 0 := by omega
  have h2 : c.toNat / 256 % 16 = 0 := by omega
  have h3 : c.toNat / 16 % 16 = c.toNat / 16 := by omega
  rw [escapeUnit, h1, h2, h3]
  rfl

theorem escapes_escapeChar : Escapes escapeChar := by
  intro c
  refine ⟨[c.toNat], joinUnits_char c, ?_⟩
  intro rest
  unfold escapeChar
  split_ifs with hquote hslash hn hr ht hb hf hcontrol
  · subst hquote
    exact scanString_escape (by decide) rfl rest
  · subst hslash
    exact scanString_escape (by decide) rfl rest
  · subst hn
    exact scanString_escape (by decide) rfl rest
  · subst hr
    exact scanString_escape (by decide) rfl rest
  · subst ht
    exact scanString_escape (by decide) rfl rest
  · subst hb
    exact scanString_escape (by decide) rfl rest
  · subst hf
    exact scanString_escape (by decide) rfl rest
  · rw [escapeChar_control hcontrol]
    exact scanString_escapeUnit (by omega) rest
  · exact scanString_raw hquote hslash hcontrol rest

theorem scanString_quoted {esc : Char → List Char} (hesc : Escapes esc) (cs rest : List Char) :
    ∃ us, scanString (cs.flatMap esc ++ '"' :: rest) = some (us, rest) ∧
      joinUnits us = some cs := by
  induction cs with
  | nil =>
      refine ⟨[], ?_, rfl⟩
      rw [List.flatMap_nil, List.nil_append, scanString.eq_def]
      rfl
  | cons c cs ih =>
      obtain ⟨us, hjoin, hscan⟩ := hesc c
      obtain ⟨vs, hrest, hcs⟩ := ih
      refine ⟨us ++ vs, ?_, by rw [hjoin, hcs]; rfl⟩
      rw [List.flatMap_cons, List.append_assoc, hscan, hrest]
      rfl

/-- A string is read back from its literal. -/
theorem readString_quoted {esc : Char → List Char} (hesc : Escapes esc) (s : String)
    (rest : List Char) : readString (s.toList.flatMap esc ++ '"' :: rest) = some (s, rest) := by
  obtain ⟨us, hscan, hjoin⟩ := scanString_quoted hesc s.toList rest
  rw [readString, hscan]
  dsimp only
  rw [hjoin, Option.map_some, String.ofList_toList]

/-! ## Numbers -/

theorem head_toDigits {n : Nat} (hn : 0 < n) : (Nat.toDigits 10 n).head? ≠ some '0' := by
  induction n using Nat.strongRecOn with
  | _ n ih =>
      by_cases hsmall : n < 10
      · rw [Nat.toDigits_of_lt_base hsmall]
        have hdigit : ∀ k < 10, 0 < k → [Nat.digitChar k].head? ≠ some '0' := by decide
        exact hdigit n hsmall hn
      · rw [Nat.toDigits_of_base_le (by decide) (by omega)]
        have hhead := ih (n / 10) (by omega) (by omega)
        cases hdigits : Nat.toDigits 10 (n / 10) with
        | nil => exact absurd hdigits Nat.toDigits_ne_nil
        | cons d ds =>
            rw [hdigits] at hhead
            exact hhead

/-- What follows a value is no part of a number. -/
theorem follows_head {rest : List Char} (h : Follows rest) {c : Char} (hc : rest.head? = some c) :
    c = ',' ∨ c = ']' ∨ c = '}' := by
  cases rest with
  | nil => cases hc
  | cons c' tail =>
      obtain rfl := Option.some.inj hc
      have hdelimiter := h c' tail rfl
      simpa only [isDelimiter, Bool.or_eq_true, decide_eq_true_eq, or_assoc] using hdelimiter

/-- The text does not go on with a digit. -/
def Undigited (rest : List Char) : Prop := ∀ c ∈ rest.head?, c.isDigit = false

theorem Follows.undigited {rest : List Char} (h : Follows rest) : Undigited rest := by
  intro c hc
  rcases follows_head h hc with rfl | rfl | rfl <;> rfl

theorem takeWhile_digits (ds : List Char) {rest : List Char} (hds : ∀ c ∈ ds, c.isDigit = true)
    (hrest : Undigited rest) :
    (ds ++ rest).takeWhile Char.isDigit = ds ∧ (ds ++ rest).dropWhile Char.isDigit = rest := by
  have hhead : rest.takeWhile Char.isDigit = [] ∧ rest.dropWhile Char.isDigit = rest := by
    cases rest with
    | nil => exact ⟨rfl, rfl⟩
    | cons c tail =>
        have hdigit : c.isDigit = false := hrest c rfl
        rw [List.takeWhile_cons, List.dropWhile_cons, hdigit]
        exact ⟨rfl, rfl⟩
  refine ⟨?_, ?_⟩
  · rw [List.takeWhile_append_of_pos hds, hhead.1, List.append_nil]
  · rw [List.dropWhile_append_of_pos hds, hhead.2]

theorem readDigits_toDigits (n : Nat) {rest : List Char} (hrest : Undigited rest) :
    readDigits (Nat.toDigits 10 n ++ rest) = some (Nat.toDigits 10 n, rest) := by
  obtain ⟨htake, hdrop⟩ := takeWhile_digits (Nat.toDigits 10 n)
    (fun c hc => Nat.isDigit_of_mem_toDigits (by decide) (by decide) hc) hrest
  rcases Nat.eq_zero_or_pos n with rfl | hn
  · rw [Nat.toDigits_zero]
    rfl
  · have hhead : (Nat.toDigits 10 n ++ rest).head? ≠ some '0' := by
      have := head_toDigits hn
      cases hdigits : Nat.toDigits 10 n with
      | nil => exact absurd hdigits Nat.toDigits_ne_nil
      | cons d ds => rwa [hdigits] at this
    rw [readDigits, if_neg hhead, htake, hdrop, if_neg Nat.toDigits_ne_nil]

theorem readFraction_follows {rest : List Char} (h : Follows rest) :
    readFraction rest = ([], rest) ∧ readExponent rest = ([], rest) := by
  cases rest with
  | nil => exact ⟨rfl, rfl⟩
  | cons c tail => rcases follows_head h rfl with rfl | rfl | rfl <;> exact ⟨rfl, rfl⟩

/-- An integer is read back from its digits. -/
theorem readNumber_repr (env : Decoders) (n : Int) {rest : List Char} (hrest : Follows rest) :
    readNumber env (n.repr.toList ++ rest) = some (.int n, rest) := by
  obtain ⟨hfraction, hexponent⟩ := readFraction_follows hrest
  rw [repr_toList]
  split
  · rename_i hn
    have hminus : (Nat.toDigits 10 n.toNat ++ rest).head? ≠ some '-' := by
      cases hdigits : Nat.toDigits 10 n.toNat with
      | nil => exact absurd hdigits Nat.toDigits_ne_nil
      | cons d ds =>
          intro heq
          have hmem : d ∈ Nat.toDigits 10 n.toNat := by rw [hdigits]; exact List.mem_cons_self
          have hdigit := Nat.isDigit_of_mem_toDigits (by decide) (by decide) hmem
          rw [Option.some.inj heq] at hdigit
          cases hdigit
    simp only [readNumber, hminus, decide_false, Bool.false_eq_true, if_false,
      readDigits_toDigits _ hrest.undigited, hfraction, hexponent, and_self, if_true,
      Nat.ofDigitChars_ten_toDigits, Int.toNat_of_nonneg hn]
  · rename_i hn
    have hhead : ('-' :: Nat.toDigits 10 (-n).toNat ++ rest).head? = some '-' := rfl
    have htail : ('-' :: Nat.toDigits 10 (-n).toNat ++ rest).tail =
        Nat.toDigits 10 (-n).toNat ++ rest := rfl
    have hvalue : -((-n).toNat : Int) = n := by omega
    simp only [readNumber, hhead, htail, decide_true, if_true, readDigits_toDigits _ hrest.undigited,
      hfraction, hexponent, and_self, Nat.ofDigitChars_ten_toDigits, hvalue]

/-! ## Values -/

/-- A value without floats, in which no object has a key twice. -/
inductive Plain : Json → Prop where
  | null : Plain .null
  | bool (b : Bool) : Plain (.bool b)
  | int (n : Int) : Plain (.int n)
  | string (s : String) : Plain (.string s)
  | array {items : List Json} (plain : ∀ v ∈ items, Plain v) : Plain (.array items)
  | object {members : List (String × Json)} (nodup : (members.map Prod.fst).Nodup)
      (plain : ∀ m ∈ members, Plain m.2) : Plain (.object members)

/-- The text starts with a character that the reader does not skip, and that ends no
    array and no object. -/
def Starts (text : List Char) : Prop :=
  ∃ c tail, text = c :: tail ∧ isBlank c = false ∧ c ≠ ']' ∧ c ≠ '}'

theorem starts_digits (n : Nat) : Starts (Nat.toDigits 10 n) := by
  cases hdigits : Nat.toDigits 10 n with
  | nil => exact absurd hdigits Nat.toDigits_ne_nil
  | cons c tail =>
      have hmem : c ∈ Nat.toDigits 10 n := by rw [hdigits]; exact List.mem_cons_self
      have hdigit := Nat.isDigit_of_mem_toDigits (by decide) (by decide) hmem
      refine ⟨c, tail, rfl, ?_, ?_, ?_⟩
      · by_contra hblank
        simp only [isBlank, Bool.not_eq_false, Bool.or_eq_true, decide_eq_true_eq, or_assoc] at hblank
        rcases hblank with rfl | rfl | rfl | rfl <;> cases hdigit
      · rintro rfl
        cases hdigit
      · rintro rfl
        cases hdigit

theorem starts_repr (n : Int) : Starts n.repr.toList := by
  rw [repr_toList]
  split
  · exact starts_digits _
  · exact ⟨'-', _, rfl, rfl, by decide, by decide⟩

theorem Starts.skip {text : List Char} (h : Starts text) (rest : List Char) :
    skip (text ++ rest) = text ++ rest := by
  obtain ⟨c, tail, rfl, hblank, -, -⟩ := h
  rw [Json.skip, List.cons_append, List.dropWhile_cons_of_neg]
  rw [hblank]
  exact Bool.false_ne_true

theorem Starts.append {text : List Char} (h : Starts text) (rest : List Char) :
    Starts (text ++ rest) := by
  obtain ⟨c, tail, rfl, hstart⟩ := h
  exact ⟨c, tail ++ rest, rfl, hstart⟩

theorem skip_cons {c : Char} (h : isBlank c = false) (rest : List Char) :
    skip (c :: rest) = c :: rest := by
  rw [skip, List.dropWhile_cons_of_neg]
  rw [h]
  exact Bool.false_ne_true

/-- The value is read back from its text, where the recursion is allowed to go deep enough. -/
def Reads (env : Decoders) (v : Json) : Prop :=
  ∀ fuel rest, Follows rest → 2 * (printAscii v).length ≤ fuel →
    readValue env fuel (printAscii v ++ rest) = some (v, rest)

/-! ## Floats -/

def IsFraction (text : List Char) : Prop :=
  text = [] ∨ ∃ ds, ds ≠ [] ∧ (∀ c ∈ ds, c.isDigit = true) ∧ text = '.' :: ds

def IsExponent (text : List Char) : Prop :=
  text = [] ∨ ∃ sign ds, (sign = [] ∨ sign = ['+'] ∨ sign = ['-']) ∧ ds ≠ [] ∧
    (∀ c ∈ ds, c.isDigit = true) ∧ text = 'e' :: (sign ++ ds)

/-- The text of a float as it is written: a number that has a fraction or an exponent, and whose
    digits the reader turns into the float again, or one of the words. -/
inductive FloatLiteral (env : Decoders) (f : FloatText) : Prop where
  | number (negative : Bool) (n : Nat) (fraction exponent : List Char)
      (text : f.text = (if negative then ['-'] else []) ++ Nat.toDigits 10 n ++ fraction ++ exponent)
      (isFraction : IsFraction fraction) (isExponent : IsExponent exponent)
      (marked : ¬ (fraction = [] ∧ exponent = [])) (value : env.float f.text = f)
  | word (mem : (f.text, .float f) ∈ valueWords)

theorem Undigited.cons {c : Char} (h : c.isDigit = false) (rest : List Char) :
    Undigited (c :: rest) := by
  intro d hd
  obtain rfl := Option.some.inj hd
  exact h

theorem IsExponent.undigited {text rest : List Char} (h : IsExponent text) (hrest : Follows rest) :
    Undigited (text ++ rest) := by
  rcases h with rfl | ⟨sign, ds, -, -, -, rfl⟩
  · exact hrest.undigited
  · exact .cons rfl _

theorem readExponent_text {text rest : List Char} (h : IsExponent text) (hrest : Follows rest) :
    readExponent (text ++ rest) = (text, rest) := by
  rcases h with rfl | ⟨sign, ds, hsign, hne, hds, rfl⟩
  · exact (readFraction_follows hrest).2
  · obtain ⟨htake, hdrop⟩ := takeWhile_digits ds hds hrest.undigited
    have hread : readSign (sign ++ ds ++ rest) = (sign, ds ++ rest) := by
      rcases hsign with rfl | rfl | rfl
      · cases ds with
        | nil => exact absurd rfl hne
        | cons d ds =>
            have hd := hds d List.mem_cons_self
            rw [List.nil_append, List.cons_append, readSign]
            · rintro _ heq
              obtain rfl := (List.cons.inj heq).1
              cases hd
            · rintro _ heq
              obtain rfl := (List.cons.inj heq).1
              cases hd
      · rfl
      · rfl
    rw [List.cons_append, readExponent, if_pos (.inl rfl), hread]
    dsimp only
    rw [htake, hdrop, if_neg hne]
    rfl

theorem readFraction_text {text rest : List Char} (h : IsFraction text) (hrest : Undigited rest)
    (hdot : rest.head? ≠ some '.') : readFraction (text ++ rest) = (text, rest) := by
  rcases h with rfl | ⟨ds, hne, hds, rfl⟩
  · rw [List.nil_append]
    unfold readFraction
    split
    · exact absurd rfl hdot
    · rfl
  · obtain ⟨htake, hdrop⟩ := takeWhile_digits ds hds hrest
    rw [List.cons_append, readFraction, htake, hdrop, if_neg hne]

theorem IsExponent.head_ne_dot {text rest : List Char} (h : IsExponent text)
    (hrest : Follows rest) : (text ++ rest).head? ≠ some '.' := by
  rcases h with rfl | ⟨sign, ds, -, -, -, rfl⟩
  · intro hdot
    rcases follows_head hrest hdot with h | h | h <;> cases h
  · intro hdot
    cases hdot

theorem IsFraction.undigited {text rest : List Char} (h : IsFraction text)
    (hrest : Undigited rest) : Undigited (text ++ rest) := by
  rcases h with rfl | ⟨ds, -, -, rfl⟩
  · exact hrest
  · exact .cons rfl _

/-- The minus sign in front of the digits of a number. -/
theorem sign_toDigits (negative : Bool) (n : Nat) (rest : List Char) :
    ((if negative then ['-'] else []) ++ Nat.toDigits 10 n ++ rest).head? = some '-' ↔
      negative = true := by
  cases negative with
  | true => exact iff_of_true rfl rfl
  | false =>
      refine iff_of_false ?_ Bool.false_ne_true
      cases hdigits : Nat.toDigits 10 n with
      | nil => exact absurd hdigits Nat.toDigits_ne_nil
      | cons d ds =>
          intro heq
          have hmem : d ∈ Nat.toDigits 10 n := by rw [hdigits]; exact List.mem_cons_self
          have hdigit := Nat.isDigit_of_mem_toDigits (by decide) (by decide) hmem
          obtain rfl : d = '-' := Option.some.inj heq
          cases hdigit

theorem readNumber_float {env : Decoders} {f : FloatText} {negative : Bool} {n : Nat}
    {fraction exponent : List Char}
    (text : f.text = (if negative then ['-'] else []) ++ Nat.toDigits 10 n ++ fraction ++ exponent)
    (isFraction : IsFraction fraction) (isExponent : IsExponent exponent)
    (marked : ¬ (fraction = [] ∧ exponent = [])) (value : env.float f.text = f)
    {rest : List Char} (hrest : Follows rest) :
    readNumber env (f.text ++ rest) = some (.float f, rest) := by
  have hexponent := readExponent_text isExponent hrest
  have hfraction := readFraction_text isFraction (isExponent.undigited hrest)
    (isExponent.head_ne_dot hrest)
  have hdigits := readDigits_toDigits n (isFraction.undigited (isExponent.undigited hrest))
  have hwhole : f.text ++ rest = (if negative then ['-'] else []) ++ Nat.toDigits 10 n ++
      (fraction ++ (exponent ++ rest)) := by
    rw [text]
    simp only [List.append_assoc]
  have hhead : decide ((f.text ++ rest).head? = some '-') = negative := by
    rw [hwhole, Bool.eq_iff_iff, decide_eq_true_eq, sign_toDigits]
  have hbody : (if negative then (f.text ++ rest).tail else f.text ++ rest) =
      Nat.toDigits 10 n ++ (fraction ++ (exponent ++ rest)) := by
    rw [hwhole]
    cases negative <;> rfl
  rw [readNumber]
  simp only [hhead, hbody, hdigits, hfraction, hexponent, if_neg marked, ← text, value]

/-! ## Texts -/

/-- A value in which no object has a key twice, and whose floats are written as they are read. -/
inductive Exact (env : Decoders) : Json → Prop where
  | null : Exact env .null
  | bool (b : Bool) : Exact env (.bool b)
  | int (n : Int) : Exact env (.int n)
  | float {f : FloatText} (literal : FloatLiteral env f) : Exact env (.float f)
  | string (s : String) : Exact env (.string s)
  | array {items : List Json} (exact : ∀ v ∈ items, Exact env v) : Exact env (.array items)
  | object {members : List (String × Json)} (nodup : (members.map Prod.fst).Nodup)
      (exact : ∀ m ∈ members, Exact env m.2) : Exact env (.object members)

theorem Plain.exact (env : Decoders) {v : Json} (h : Plain v) : Exact env v := by
  induction h with
  | null => exact .null
  | bool b => exact .bool b
  | int n => exact .int n
  | string s => exact .string s
  | array _ ih => exact .array ih
  | object nodup _ ih => exact .object nodup ih

/-- The first character of a float is none that opens another value. -/
theorem FloatLiteral.head {env : Decoders} {f : FloatText} (h : FloatLiteral env f) :
    ∃ c tail, f.text = c :: tail ∧ (c.isDigit = true ∨ c ∈ ['-', 'N', 'I']) := by
  cases h with
  | number negative n fraction exponent text _ _ _ _ =>
      rw [text]
      cases negative with
      | true => exact ⟨'-', _, rfl, .inr (by decide)⟩
      | false =>
          cases hdigits : Nat.toDigits 10 n with
          | nil => exact absurd hdigits Nat.toDigits_ne_nil
          | cons d ds =>
              have hmem : d ∈ Nat.toDigits 10 n := by rw [hdigits]; exact List.mem_cons_self
              exact ⟨d, _, rfl, .inl (Nat.isDigit_of_mem_toDigits (by decide) (by decide) hmem)⟩
  | word mem =>
      simp only [valueWords, List.mem_cons, Prod.mk.injEq, reduceCtorEq, and_false, false_or,
        List.not_mem_nil, or_false, Json.float.injEq] at mem
      rcases mem with ⟨htext, -⟩ | ⟨htext, -⟩ | ⟨htext, -⟩ <;> rw [htext]
      · exact ⟨'N', _, rfl, .inr (by decide)⟩
      · exact ⟨'I', _, rfl, .inr (by decide)⟩
      · exact ⟨'-', _, rfl, .inr (by decide)⟩

theorem ne_of_number_head {c d : Char} (h : c.isDigit = true ∨ c ∈ ['-', 'N', 'I'])
    (hdigit : d.isDigit = false) (hd : d ∉ ['-', 'N', 'I']) : c ≠ d := by
  rintro rfl
  rcases h with h | h
  · rw [hdigit] at h
    cases h
  · exact hd h

theorem FloatLiteral.starts {env : Decoders} {f : FloatText} (h : FloatLiteral env f) :
    Starts f.text := by
  obtain ⟨c, tail, htext, hc⟩ := h.head
  refine ⟨c, tail, htext, ?_, ne_of_number_head hc rfl (by decide),
    ne_of_number_head hc rfl (by decide)⟩
  simp only [isBlank, Bool.or_eq_false_iff, decide_eq_false_iff_not]
  exact ⟨⟨⟨ne_of_number_head hc rfl (by decide), ne_of_number_head hc rfl (by decide)⟩,
    ne_of_number_head hc rfl (by decide)⟩, ne_of_number_head hc rfl (by decide)⟩

theorem starts_printWith (esc : Char → List Char) {env : Decoders} {v : Json} (h : Exact env v) :
    Starts (printWith esc v) := by
  cases h with
  | null => exact ⟨'n', _, rfl, rfl, by decide, by decide⟩
  | bool b =>
      cases b with
      | true => exact ⟨'t', _, rfl, rfl, by decide, by decide⟩
      | false => exact ⟨'f', _, rfl, rfl, by decide, by decide⟩
  | int n => exact starts_repr n
  | float literal => exact literal.starts
  | string s => exact ⟨'"', _, rfl, rfl, by decide, by decide⟩
  | array _ => exact ⟨'[', _, rfl, rfl, by decide, by decide⟩
  | object _ _ => exact ⟨'{', _, rfl, rfl, by decide, by decide⟩

theorem starts_member (esc : Char → List Char) (m : String × Json) :
    Starts (printMemberWith esc m) :=
  ⟨'"', _, rfl, rfl, by decide, by decide⟩

/-- The value is read back from its text with some escapes. -/
def ReadsBack (esc : Char → List Char) (env : Decoders) (v : Json) : Prop :=
  ∀ fuel rest, Follows rest → 2 * (printWith esc v).length ≤ fuel →
    readValue env fuel (printWith esc v ++ rest) = some (v, rest)

variable {env : Decoders} {esc : Char → List Char}

theorem intercalate_starts (texts : List (List Char)) {text : List Char} (h : Starts text) :
    Starts ([','].intercalate (text :: texts)) := by
  cases texts with
  | nil => rwa [List.intercalate_singleton]
  | cons text' texts =>
      rw [List.intercalate_cons_cons, List.append_assoc]
      exact h.append _

theorem afterFirst_cons (closing : Char) (text : List Char) (texts : List (List Char))
    (rest : List Char) : afterFirst closing (text :: texts) rest =
      ',' :: ([','].intercalate (text :: texts) ++ closing :: rest) := rfl

theorem readItems_last {fuel : Nat} {cs rest : List Char} {v : Json}
    (h : readValue env fuel cs = some (v, ']' :: rest)) :
    readItems env (fuel + 1) cs = some ([v], rest) := by
  rw [readItems, h]
  dsimp only
  rw [skip_cons rfl]
  rfl

theorem readItems_more {fuel : Nat} {cs rest : List Char} {v : Json}
    (h : readValue env fuel cs = some (v, ',' :: rest)) :
    readItems env (fuel + 1) cs = (readItems env fuel (skip rest)).map fun r => (v :: r.1, r.2) := by
  rw [readItems, h]
  dsimp only
  rw [skip_cons rfl]
  rfl

theorem length_intercalate_cons_cons (text text' : List Char) (texts : List (List Char)) :
    ([','].intercalate (text :: text' :: texts)).length =
      text.length + 1 + ([','].intercalate (text' :: texts)).length := by
  rw [List.intercalate_cons_cons, List.length_append, List.length_append, List.length_singleton]

/-- The items of an array are read up to its bracket, one after the other. -/
theorem readItems_texts {v : Json} {items : List Json} (hexact : ∀ w ∈ v :: items, Exact env w)
    (hreads : ∀ w ∈ v :: items, ReadsBack esc env w) (fuel : Nat) {rest : List Char}
    (hfuel : 2 * ([','].intercalate ((v :: items).map (printWith esc))).length + 1 ≤ fuel) :
    readItems env fuel ([','].intercalate ((v :: items).map (printWith esc)) ++ ']' :: rest) =
      some (v :: items, rest) := by
  induction items generalizing v fuel with
  | nil =>
      cases fuel with
      | zero => omega
      | succ fuel =>
          rw [List.map_cons, List.map_nil, List.intercalate_singleton] at hfuel ⊢
          exact readItems_last
            (hreads v List.mem_cons_self fuel _ (Follows.cons rfl rest) (by omega))
  | cons w items ih =>
      cases fuel with
      | zero => omega
      | succ fuel =>
          rw [List.map_cons, List.map_cons, length_intercalate_cons_cons] at hfuel
          have hskip := (intercalate_starts (items.map (printWith esc))
            (starts_printWith esc (hexact w (.tail _ (.head _))))).skip (']' :: rest)
          have hrest := ih (fun x hx => hexact x (.tail _ hx)) (fun x hx => hreads x (.tail _ hx))
            fuel (by rw [List.map_cons]; omega)
          rw [List.map_cons] at hrest
          rw [List.map_cons, List.map_cons, intercalate_cons_afterFirst, afterFirst_cons,
            readItems_more (hreads v List.mem_cons_self fuel _ (Follows.cons rfl _) (by omega)),
            hskip, hrest]
          rfl

theorem length_printWith_le (esc : Char → List Char) (m : String × Json) :
    (printWith esc m.2).length ≤ (printMemberWith esc m).length := by
  rw [printMemberWith, List.length_append, List.length_cons]
  omega

/-- The head of the members is read as `readValue` reads its value. -/
theorem readMembers_member (hesc : Escapes esc) {fuel : Nat} {m : String × Json}
    (hexact : Exact env m.2)
    (hreads : ReadsBack esc env m.2) (hfuel : 2 * (printMemberWith esc m).length ≤ fuel) {rest : List Char}
    (hrest : Follows rest) :
    readMembers env (fuel + 1) (printMemberWith esc m ++ rest) =
      match skip rest with
      | ',' :: rest => (readMembers env fuel (skip rest)).map fun r => (m :: r.1, r.2)
      | '}' :: rest => some ([m], rest)
      | _ => none := by
  have htext : printMemberWith esc m ++ rest =
      '"' :: (m.1.toList.flatMap esc ++ '"' :: ':' :: (printWith esc m.2 ++ rest)) := by
    rw [printMemberWith, quoteWith, List.append_assoc, List.append_assoc]
    rfl
  have hvalue := hreads fuel rest hrest (by have := length_printWith_le esc m; omega)
  rw [htext, readMembers, if_pos rfl, readString_quoted hesc]
  show (match skip (':' :: (printWith esc m.2 ++ rest)) with
    | ':' :: rest => _
    | _ => none) = _
  rw [skip_cons rfl]
  show (match readValue env fuel (skip (printWith esc m.2 ++ rest)) with
    | none => _
    | some (v, rest) => _) = _
  rw [(starts_printWith esc hexact).skip, hvalue]

theorem readMembers_last (hesc : Escapes esc) {fuel : Nat} {m : String × Json} (hexact : Exact env m.2)
    (hreads : ReadsBack esc env m.2) (hfuel : 2 * (printMemberWith esc m).length ≤ fuel) (rest : List Char) :
    readMembers env (fuel + 1) (printMemberWith esc m ++ '}' :: rest) = some ([m], rest) := by
  rw [readMembers_member hesc hexact hreads hfuel (Follows.cons rfl rest), skip_cons rfl]
  rfl

theorem readMembers_more (hesc : Escapes esc) {fuel : Nat} {m : String × Json} (hexact : Exact env m.2)
    (hreads : ReadsBack esc env m.2) (hfuel : 2 * (printMemberWith esc m).length ≤ fuel) (rest : List Char) :
    readMembers env (fuel + 1) (printMemberWith esc m ++ ',' :: rest) =
      (readMembers env fuel (skip rest)).map fun r => (m :: r.1, r.2) := by
  rw [readMembers_member hesc hexact hreads hfuel (Follows.cons rfl rest), skip_cons rfl]
  rfl

/-- The members of an object are read up to its brace, one after the other. -/
theorem readMembers_texts (hesc : Escapes esc) {m : String × Json}
    {members : List (String × Json)}
    (hexact : ∀ x ∈ m :: members, Exact env x.2) (hreads : ∀ x ∈ m :: members, ReadsBack esc env x.2) (fuel : Nat)
    {rest : List Char}
    (hfuel : 2 * ([','].intercalate ((m :: members).map (printMemberWith esc))).length + 1 ≤ fuel) :
    readMembers env fuel ([','].intercalate ((m :: members).map (printMemberWith esc)) ++ '}' :: rest) =
      some (m :: members, rest) := by
  induction members generalizing m fuel with
  | nil =>
      cases fuel with
      | zero => omega
      | succ fuel =>
          rw [List.map_cons, List.map_nil, List.intercalate_singleton] at hfuel ⊢
          exact readMembers_last hesc (hexact m List.mem_cons_self) (hreads m List.mem_cons_self)
            (by omega) rest
  | cons x members ih =>
      cases fuel with
      | zero => omega
      | succ fuel =>
          rw [List.map_cons, List.map_cons, length_intercalate_cons_cons] at hfuel
          have hskip := (intercalate_starts (members.map (printMemberWith esc))
            (starts_member esc x)).skip ('}' :: rest)
          have hrest := ih (fun y hy => hexact y (.tail _ hy)) (fun y hy => hreads y (.tail _ hy))
            fuel (by rw [List.map_cons]; omega)
          rw [List.map_cons] at hrest
          rw [List.map_cons, List.map_cons, intercalate_cons_afterFirst, afterFirst_cons,
            readMembers_more hesc (hexact m List.mem_cons_self) (hreads m List.mem_cons_self) (by omega),
            hskip, hrest]
          rfl

/-! ## Round trip -/

theorem readWord_null (rest : List Char) : readWord ("null".toList ++ rest) = some (.null, rest) := rfl

theorem readWord_true (rest : List Char) :
    readWord ("true".toList ++ rest) = some (.bool true, rest) := rfl

theorem readWord_false (rest : List Char) :
    readWord ("false".toList ++ rest) = some (.bool false, rest) := rfl

/-- What starts with none of the three opening characters is a number or a word. -/
theorem readValue_atom {fuel : Nat} {c : Char} {cs : List Char} (hquote : c ≠ '"')
    (hbracket : c ≠ '[') (hbrace : c ≠ '{') :
    readValue env (fuel + 1) (c :: cs) =
      match readNumber env (c :: cs) with
      | some r => some r
      | none => readWord (c :: cs) := by
  rw [readValue, if_neg hquote, if_neg hbracket, if_neg hbrace]

theorem reads_int (n : Int) : ReadsBack esc env (.int n) := by
  intro fuel rest hrest hfuel
  show readValue env fuel (n.repr.toList ++ rest) = _
  have hnumber := readNumber_repr env n hrest
  have hhead : ∃ c cs, n.repr.toList ++ rest = c :: cs ∧ (c.isDigit = true ∨ c = '-') := by
    cases htext : n.repr.toList with
    | nil => exact absurd htext (print_ne_nil (.int n))
    | cons c cs =>
        refine ⟨c, cs ++ rest, rfl, repr_chars (n := n) ?_⟩
        rw [htext]
        exact List.mem_cons_self
  have hpos : 0 < fuel := by
    have hne : 0 < (printWith esc (.int n)).length := List.length_pos_of_ne_nil (print_ne_nil (.int n))
    omega
  obtain ⟨fuel, rfl⟩ := Nat.exists_eq_succ_of_ne_zero (by omega : fuel ≠ 0)
  obtain ⟨c, cs, htext, hc⟩ := hhead
  have hother : ∀ d, d.isDigit = false → d ≠ '-' → c ≠ d := by
    rintro d hdigit hminus rfl
    rcases hc with hc | hc
    · rw [hdigit] at hc
      cases hc
    · exact hminus hc
  rw [htext] at hnumber ⊢
  rw [Nat.succ_eq_add_one, readValue_atom (hother '"' rfl (by decide)) (hother '[' rfl (by decide))
    (hother '{' rfl (by decide)), hnumber]

theorem reads_string (hesc : Escapes esc) (s : String) : ReadsBack esc env (.string s) := by
  intro fuel rest _ hfuel
  have hlength : 1 ≤ (printWith esc (.string s)).length := Nat.succ_le_succ (Nat.zero_le _)
  obtain ⟨fuel, rfl⟩ := Nat.exists_eq_succ_of_ne_zero (by omega : fuel ≠ 0)
  have htext : printWith esc (.string s) ++ rest =
      '"' :: (s.toList.flatMap esc ++ '"' :: rest) := by
    rw [printWith, quoteWith, List.append_assoc]
    rfl
  rw [htext, Nat.succ_eq_add_one, readValue, if_pos rfl, readString_quoted hesc]
  rfl

theorem Starts.head {text : List Char} (h : Starts text) (rest : List Char) :
    (text ++ rest).head? ≠ some ']' ∧ (text ++ rest).head? ≠ some '}' := by
  obtain ⟨c, tail, rfl, -, hbracket, hbrace⟩ := h
  exact ⟨fun heq => hbracket (Option.some.inj heq), fun heq => hbrace (Option.some.inj heq)⟩

theorem enclose_append (opening closing : Char) (texts : List (List Char)) (rest : List Char) :
    enclose opening closing texts ++ rest =
      opening :: ([','].intercalate texts ++ closing :: rest) := by
  rw [enclose, List.append_assoc]
  rfl

theorem length_enclose (opening closing : Char) (texts : List (List Char)) :
    (enclose opening closing texts).length = ([','].intercalate texts).length + 2 := by
  rw [enclose, List.length_append, List.length_cons, List.length_singleton]

theorem reads_array {items : List Json} (hexact : ∀ v ∈ items, Exact env v)
    (hreads : ∀ v ∈ items, ReadsBack esc env v) : ReadsBack esc env (.array items) := by
  intro fuel rest _ hfuel
  rw [printWith, printItemsWith_eq_map, length_enclose] at hfuel
  rw [printWith, printItemsWith_eq_map, enclose_append]
  obtain ⟨fuel, rfl⟩ := Nat.exists_eq_succ_of_ne_zero (by omega : fuel ≠ 0)
  rw [Nat.succ_eq_add_one, readValue, if_neg (by decide), if_pos rfl]
  cases items with
  | nil =>
      rw [List.map_nil, List.intercalate_nil, List.nil_append, skip_cons rfl]
      rfl
  | cons v items =>
      have hstarts := intercalate_starts (items.map (printWith esc))
        (starts_printWith esc (hexact v List.mem_cons_self))
      rw [List.map_cons, hstarts.skip, if_neg (hstarts.head _).1, ← List.map_cons,
        readItems_texts hexact hreads _ (by omega)]
      rfl

theorem reads_object (hesc : Escapes esc) {members : List (String × Json)} (hnodup : (members.map Prod.fst).Nodup)
    (hexact : ∀ m ∈ members, Exact env m.2) (hreads : ∀ m ∈ members, ReadsBack esc env m.2) :
    ReadsBack esc env (.object members) := by
  intro fuel rest _ hfuel
  rw [printWith, printMembersWith_eq_map, length_enclose] at hfuel
  rw [printWith, printMembersWith_eq_map, enclose_append]
  obtain ⟨fuel, rfl⟩ := Nat.exists_eq_succ_of_ne_zero (by omega : fuel ≠ 0)
  rw [Nat.succ_eq_add_one, readValue, if_neg (by decide), if_neg (by decide), if_pos rfl]
  cases members with
  | nil =>
      rw [List.map_nil, List.intercalate_nil, List.nil_append, skip_cons rfl]
      rfl
  | cons m members =>
      have hstarts := intercalate_starts (members.map (printMemberWith esc)) (starts_member esc m)
      rw [List.map_cons, hstarts.skip, if_neg (hstarts.head _).2, ← List.map_cons,
        readMembers_texts hesc hexact hreads _ (by omega), Option.map_some, Dict.entries_ofPairs hnodup]

theorem readWord_text (env : Decoders) {f : FloatText} (h : (f.text, .float f) ∈ valueWords) (rest : List Char) :
    readNumber env (f.text ++ rest) = none ∧ readWord (f.text ++ rest) = some (.float f, rest) := by
  simp only [valueWords, List.mem_cons, Prod.mk.injEq, reduceCtorEq, and_false, false_or,
    List.not_mem_nil, or_false, Json.float.injEq] at h
  rcases h with ⟨-, rfl⟩ | ⟨-, rfl⟩ | ⟨-, rfl⟩ <;> exact ⟨rfl, rfl⟩

theorem reads_float {f : FloatText} (h : FloatLiteral env f) : ReadsBack esc env (.float f) := by
  intro fuel rest hrest hfuel
  obtain ⟨c, tail, htext, hc⟩ := h.head
  have hlength : (printWith esc (.float f)).length = tail.length + 1 := congrArg List.length htext
  obtain ⟨fuel, rfl⟩ := Nat.exists_eq_succ_of_ne_zero (by omega : fuel ≠ 0)
  have hatom : readValue env (fuel + 1) (f.text ++ rest) =
      match readNumber env (f.text ++ rest) with
      | some r => some r
      | none => readWord (f.text ++ rest) := by
    rw [htext]
    exact readValue_atom (ne_of_number_head hc rfl (by decide))
      (ne_of_number_head hc rfl (by decide)) (ne_of_number_head hc rfl (by decide))
  show readValue env (fuel + 1) (f.text ++ rest) = some (.float f, rest)
  rw [hatom]
  cases h with
  | number negative n fraction exponent text isFraction isExponent marked value =>
      rw [readNumber_float text isFraction isExponent marked value hrest]
  | word mem =>
      obtain ⟨hnumber, hword⟩ := readWord_text env mem rest
      rw [hnumber, hword]

/-- **The text of a value is read back**, whatever escapes it is written with. -/
theorem reads_exact (hesc : Escapes esc) {v : Json} (h : Exact env v) : ReadsBack esc env v := by
  induction v with
  | null =>
      intro fuel rest _ hfuel
      cases fuel with
      | zero => exact absurd (show 8 ≤ 0 from hfuel) (by decide)
      | succ fuel => exact readWord_null rest
  | bool b =>
      intro fuel rest _ hfuel
      cases b with
      | true =>
          cases fuel with
          | zero => exact absurd (show 8 ≤ 0 from hfuel) (by decide)
          | succ fuel => exact readWord_true rest
      | false =>
          cases fuel with
          | zero => exact absurd (show 10 ≤ 0 from hfuel) (by decide)
          | succ fuel => exact readWord_false rest
  | int n => exact reads_int n
  | float f =>
      cases h with
      | float literal => exact reads_float literal
  | string s => exact reads_string hesc s
  | array items ih =>
      cases h with
      | array exact => exact reads_array exact fun v hv => ih v hv (exact v hv)
  | object members ih =>
      cases h with
      | object nodup exact => exact reads_object hesc nodup exact fun m hm => ih m hm (exact m hm)

theorem reads_plain (env : Decoders) {v : Json} (h : Plain v) : Reads env v := by
  have hreads := reads_exact escapes_escapeAscii (h.exact env)
  rwa [ReadsBack, printWith_escapeAscii] at hreads

/-- **Round trip.** `json.loads` reads what has been written with some escapes. -/
theorem readText_printWith (hesc : Escapes esc) {v : Json} (h : Exact env v) :
    readText env (printWith esc v) = some v := by
  have hread := reads_exact hesc h (2 * (printWith esc v).length + 2) [] Follows.nil (by omega)
  have hskip := (starts_printWith esc h).skip []
  rw [List.append_nil] at hread hskip
  rw [readText, hskip, hread]
  rfl

/-- `json.loads` of what `json.dumps` has written with `ensure_ascii=False`. -/
theorem readText_print {v : Json} (h : Exact env v) : readText env (print v) = some v := by
  have hread := readText_printWith escapes_escapeChar h
  rwa [printWith_escapeChar] at hread

theorem readText_printAscii {v : Json} (h : Exact env v) : readText env (printAscii v) = some v := by
  have hread := readText_printWith escapes_escapeAscii h
  rwa [printWith_escapeAscii] at hread

theorem mem_intercalate {texts : List (List Char)} {c : Char} (h : c ∈ [','].intercalate texts) :
    c = ',' ∨ ∃ text ∈ texts, c ∈ text := by
  induction texts with
  | nil => cases h
  | cons text texts ih =>
      cases texts with
      | nil =>
          rw [List.intercalate_singleton] at h
          exact .inr ⟨text, List.mem_cons_self, h⟩
      | cons text' texts =>
          rw [List.intercalate_cons_cons, List.mem_append, List.mem_append, List.mem_singleton] at h
          rcases h with (h | h) | h
          · exact .inr ⟨text, List.mem_cons_self, h⟩
          · exact .inl h
          · rcases ih h with h | ⟨text'', hin, h⟩
            · exact .inl h
            · exact .inr ⟨text'', List.mem_cons_of_mem _ hin, h⟩

theorem le_of_mem_escapeChar {c d : Char} (h : d ∈ escapeChar c) : 32 ≤ d.toNat := by
  have hpair : ∀ e, 32 ≤ e.toNat → ∀ d ∈ ['\\', e], 32 ≤ d.toNat := by
    intro e he d hd
    rcases List.mem_cons.mp hd with rfl | hd
    · decide
    · exact List.mem_singleton.mp hd ▸ he
  unfold escapeChar at h
  split_ifs at h with hquote hslash hn hr ht hb hf hcontrol
  · exact hpair '"' (by decide) d h
  · exact hpair '\\' (by decide) d h
  · exact hpair 'n' (by decide) d h
  · exact hpair 'r' (by decide) d h
  · exact hpair 't' (by decide) d h
  · exact hpair 'b' (by decide) d h
  · exact hpair 'f' (by decide) d h
  · have hdigit : ∀ n < 16, 32 ≤ (Nat.digitChar n).toNat := by decide
    simp only [List.mem_cons, List.not_mem_nil, or_false] at h
    rcases h with rfl | rfl | rfl | rfl | rfl | rfl
    · decide
    · decide
    · decide
    · decide
    · exact hdigit _ (by omega)
    · exact hdigit _ (by omega)
  · obtain rfl := List.mem_singleton.mp h
    omega

theorem le_of_mem_escapeAscii {c d : Char} (h : d ∈ escapeAscii c) : 32 ≤ d.toNat := by
  have hshort : ∀ c e, shortEscape c = some e → 32 ≤ e.toNat := by
    intro c e he
    unfold shortEscape at he
    split_ifs at he <;> cases he <;> decide
  have hunit : ∀ n < 65536, ∀ d ∈ escapeUnit n, 32 ≤ d.toNat := by
    have hdigit : ∀ n < 16, 32 ≤ (Nat.digitChar n).toNat := by decide
    intro n hn d hd
    simp only [escapeUnit, List.mem_cons, List.not_mem_nil, or_false] at hd
    rcases hd with rfl | rfl | rfl | rfl | rfl | rfl
    · decide
    · decide
    · exact hdigit _ (by omega)
    · exact hdigit _ (by omega)
    · exact hdigit _ (by omega)
    · exact hdigit _ (by omega)
  unfold escapeAscii at h
  split at h
  next e he =>
    rcases List.mem_pair.mp h with rfl | rfl
    · decide
    · exact hshort c _ he
  next =>
    split at h
    next hprintable =>
      obtain rfl := List.mem_singleton.mp h
      exact hprintable.1
    next =>
      obtain ⟨u, hu, hd⟩ := List.mem_flatMap.mp h
      exact hunit u (units_lt c u hu) d hd

theorem le_of_mem_quoteWith (hesc : ∀ {c d}, d ∈ esc c → 32 ≤ d.toNat) {s : String} {c : Char}
    (h : c ∈ quoteWith esc s) : 32 ≤ c.toNat := by
  rw [quoteWith, List.mem_append, List.mem_cons, List.mem_singleton] at h
  rcases h with (rfl | h) | rfl
  · decide
  · obtain ⟨d, -, hd⟩ := List.mem_flatMap.mp h
    exact hesc hd
  · decide

theorem le_of_number_char {c : Char} (h : c.isDigit = true ∨ c ∈ "+-.eNaIinfty".toList) :
    32 ≤ c.toNat := by
  rcases h with h | h
  · simp only [Char.isDigit, Bool.and_eq_true, decide_eq_true_eq, ge_iff_le] at h
    have hlow : 48 ≤ c.toNat := h.1
    omega
  · have hall : ∀ d ∈ "+-.eNaIinfty".toList, 32 ≤ d.toNat :=
      List.all_iff_forall_prop.mp (by decide)
    exact hall c h

theorem le_of_mem_enclose {opening closing : Char} (hopening : 32 ≤ opening.toNat)
    (hclosing : 32 ≤ closing.toNat) {texts : List (List Char)}
    (htexts : ∀ text ∈ texts, ∀ c ∈ text, 32 ≤ c.toNat) {c : Char}
    (h : c ∈ enclose opening closing texts) : 32 ≤ c.toNat := by
  rw [enclose, List.mem_append, List.mem_cons, List.mem_singleton] at h
  rcases h with (rfl | h) | rfl
  · exact hopening
  · rcases mem_intercalate h with rfl | ⟨text, htext, hc⟩
    · decide
    · exact htexts text htext c hc
  · exact hclosing

/-- The text of a value has no control character in it. -/
theorem le_of_mem_printWith (hesc : ∀ {c d}, d ∈ esc c → 32 ≤ d.toNat) {v : Json} {c : Char}
    (h : c ∈ printWith esc v) : 32 ≤ c.toNat := by
  have hnull : ∀ c ∈ print .null, 32 ≤ c.toNat := List.all_iff_forall_prop.mp (by decide)
  have hbool : ∀ b, ∀ c ∈ print (.bool b), 32 ≤ c.toNat := by
    rintro (_ | _)
    · exact List.all_iff_forall_prop.mp (by decide)
    · exact List.all_iff_forall_prop.mp (by decide)
  induction v generalizing c with
  | null => exact hnull c h
  | bool b => exact hbool b c h
  | int n =>
      refine le_of_number_char ((repr_chars (n := n) h).imp_right ?_)
      rintro rfl
      decide
  | float f => exact le_of_number_char (float_chars f h)
  | string s => exact le_of_mem_quoteWith hesc h
  | array items ih =>
      rw [printWith, printItemsWith_eq_map] at h
      refine le_of_mem_enclose (by decide) (by decide) ?_ h
      intro text htext c hc
      obtain ⟨v, hv, rfl⟩ := List.mem_map.mp htext
      exact ih v hv hc
  | object members ih =>
      rw [printWith, printMembersWith_eq_map] at h
      refine le_of_mem_enclose (by decide) (by decide) ?_ h
      intro text htext c hc
      obtain ⟨m, hm, rfl⟩ := List.mem_map.mp htext
      rw [printMemberWith, List.mem_append, List.mem_cons] at hc
      rcases hc with hc | rfl | hc
      · exact le_of_mem_quoteWith hesc hc
      · decide
      · exact ih m hm hc

theorem le_of_mem_print {v : Json} {c : Char} (h : c ∈ print v) : 32 ≤ c.toNat := by
  rw [← printWith_escapeChar] at h
  exact le_of_mem_printWith le_of_mem_escapeChar h

theorem le_of_mem_printAscii {v : Json} {c : Char} (h : c ∈ printAscii v) : 32 ≤ c.toNat := by
  rw [← printWith_escapeAscii] at h
  exact le_of_mem_printWith le_of_mem_escapeAscii h

/-- The characters that stand for themselves as bytes. -/
def IsText (c : Char) : Prop := 0 < c.toNat ∧ c.toNat < 128

instance (c : Char) : Decidable (IsText c) := inferInstanceAs (Decidable (_ ∧ _))

theorem isText_digitChar : ∀ n < 16, IsText (Nat.digitChar n) := by decide

theorem isText_escapeUnit {n : Nat} (hn : n < 65536) {c : Char} (hc : c ∈ escapeUnit n) : IsText c := by
  simp only [escapeUnit, List.mem_cons, List.not_mem_nil, or_false] at hc
  rcases hc with rfl | rfl | rfl | rfl | rfl | rfl
  · decide
  · decide
  · exact isText_digitChar _ (by omega)
  · exact isText_digitChar _ (by omega)
  · exact isText_digitChar _ (by omega)
  · exact isText_digitChar _ (by omega)

theorem isText_shortEscape {c e : Char} (h : shortEscape c = some e) : IsText e := by
  unfold shortEscape at h
  repeat' split at h
  all_goals first | (cases h; done) | (cases h; decide)

theorem isText_escapeAscii {c d : Char} (h : d ∈ escapeAscii c) : IsText d := by
  unfold escapeAscii at h
  split at h
  · rename_i e hshort
    simp only [List.mem_cons, List.not_mem_nil, or_false] at h
    rcases h with rfl | rfl
    · decide
    · exact isText_shortEscape hshort
  · split at h
    · rename_i hprintable
      obtain rfl := List.mem_singleton.mp h
      exact ⟨by omega, by omega⟩
    · obtain ⟨u, hu, hd⟩ := List.mem_flatMap.mp h
      exact isText_escapeUnit (units_lt c u hu) hd

theorem isText_quoteAscii {s : String} {c : Char} (h : c ∈ quoteAscii s) : IsText c := by
  rw [quoteAscii, List.mem_append, List.mem_cons, List.mem_singleton] at h
  rcases h with (rfl | h) | rfl
  · decide
  · obtain ⟨d, -, hd⟩ := List.mem_flatMap.mp h
    exact isText_escapeAscii hd
  · decide

theorem isText_enclose {opening closing : Char} (hopening : IsText opening) (hclosing : IsText closing)
    {texts : List (List Char)} (htexts : ∀ text ∈ texts, ∀ c ∈ text, IsText c) {c : Char}
    (h : c ∈ enclose opening closing texts) : IsText c := by
  rw [enclose, List.mem_append, List.mem_cons, List.mem_singleton] at h
  rcases h with (rfl | h) | rfl
  · exact hopening
  · rcases mem_intercalate h with rfl | ⟨text, htext, hc⟩
    · decide
    · exact htexts text htext c hc
  · exact hclosing

theorem isText_printAscii {v : Json} (hv : Plain v) {c : Char} (h : c ∈ printAscii v) : IsText c := by
  have hnull : ∀ c ∈ printAscii .null, IsText c :=
    List.forall_iff_forall_mem.mp (by decide)
  have hbool : ∀ b, ∀ c ∈ printAscii (.bool b), IsText c := by
    intro b
    refine List.forall_iff_forall_mem.mp ?_
    cases b with
    | true => decide
    | false => decide
  induction v generalizing c with
  | null => exact hnull c h
  | bool b => exact hbool b c h
  | int n =>
      rcases repr_chars (n := n) h with hdigit | rfl
      · simp only [Char.isDigit, Bool.and_eq_true, decide_eq_true_eq, ge_iff_le] at hdigit
        have hlow : 48 ≤ c.toNat := hdigit.1
        have hhigh : c.toNat ≤ 57 := hdigit.2
        exact ⟨by omega, by omega⟩
      · decide
  | float f => cases hv
  | string s => exact isText_quoteAscii h
  | array items ih =>
      cases hv with
      | array plain =>
          rw [printAscii, printAsciiItems_eq_map] at h
          refine isText_enclose (by decide) (by decide) ?_ h
          intro text htext c hc
          obtain ⟨v, hv, rfl⟩ := List.mem_map.mp htext
          exact ih v hv (plain v hv) hc
  | object members ih =>
      cases hv with
      | object nodup plain =>
          rw [printAscii, printAsciiMembers_eq_map] at h
          refine isText_enclose (by decide) (by decide) ?_ h
          intro text htext c hc
          obtain ⟨m, hm, rfl⟩ := List.mem_map.mp htext
          rw [printAsciiMember, List.mem_append, List.mem_cons] at hc
          rcases hc with hc | rfl | hc
          · exact isText_quoteAscii hc
          · decide
          · exact ih m hm (plain m hm) hc

theorem decodeText_asciiBytes {text : List Char} (h : ∀ c ∈ text, IsText c) :
    decodeText env (asciiBytes text) = some text := by
  have hvalue : ∀ c ∈ text, (UInt8.ofNat c.toNat).toNat = c.toNat := by
    intro c hc
    have hsmall := (h c hc).2
    rw [UInt8.toNat_ofNat', Nat.mod_eq_of_lt (by omega)]
  have hall : ((asciiBytes text).all fun b => 0 < b.toNat && b.toNat < 128) = true := by
    rw [asciiBytes, List.all_map, List.all_eq_true]
    intro c hc
    obtain ⟨hpos, hsmall⟩ := h c hc
    simp only [Function.comp_apply, hvalue c hc, hpos, hsmall, decide_true, Bool.and_self]
  rw [decodeText, if_pos hall, asciiBytes, List.map_map, Option.some.injEq]
  refine (List.map_congr_left ?_).trans (List.map_id text)
  intro c hc
  rw [Function.comp_apply, hvalue c hc, Char.ofNat_toNat, id]

theorem plain_sortKeys {v : Json} (h : Plain v) : Plain (sortKeys v) := by
  induction v with
  | null => exact h
  | bool b => exact h
  | int n => exact h
  | float f => exact h
  | string s => exact h
  | array items ih =>
      cases h with
      | array plain =>
          have hitems : ∀ items : List Json, sortItems items = items.map sortKeys := by
            intro items
            induction items with
            | nil => rfl
            | cons v rest ih => rw [sortItems, ih, List.map_cons]
          rw [sortKeys, hitems]
          refine .array ?_
          intro w hw
          obtain ⟨v, hv, rfl⟩ := List.mem_map.mp hw
          exact ih v hv (plain v hv)
  | object members ih =>
      cases h with
      | object nodup plain =>
          rw [sortKeys, sortMembers_eq_map]
          have hperm := sortByKey_perm (members.map fun m => (m.1, sortKeys m.2))
          refine .object ?_ ?_
          · rw [(hperm.map Prod.fst).nodup_iff, List.map_map]
            exact nodup
          · intro x hx
            obtain ⟨m, hm, rfl⟩ := List.mem_map.mp (hperm.mem_iff.mp hx)
            exact ih m hm (plain m hm)

/-- **Round trip.** A value without floats is read back from its text, with the
    members of every object in the order of their keys. -/
theorem loads_dumpsAscii {v : Json} (h : Plain v) :
    loads env (asciiBytes (dumpsAscii v)) = some (sortKeys v) := by
  have hplain := plain_sortKeys h
  have hread := reads_plain env hplain (2 * (printAscii (sortKeys v)).length + 2) []
    Follows.nil (by omega)
  have hskip := (starts_printWith escapeAscii (hplain.exact env)).skip []
  rw [printWith_escapeAscii] at hskip
  rw [List.append_nil] at hread hskip
  rw [loads, dumpsAscii, decodeText_asciiBytes fun c hc => isText_printAscii hplain hc]
  dsimp only
  rw [hskip, hread]
  rfl

end Json
end HermesPlatform
