/-
  HermesPlatform.Lib.JsonLoads

  `json.loads` on a text, with what it raises.

  The scanner calls itself for every array and every object, and the interpreter has room for so
  many calls within one another only: beyond it raises a RecursionError.  `nesting` is the number
  of brackets that the scanner opens within one another before it is at the end or at an error.
  So the RecursionError is raised just when the nesting is above the room
  (`load_recursion_iff`).

  The reader is generic in the values it makes.  A text is a list of code points.
-/

import Mathlib.Data.List.TakeWhile
import Mathlib.Data.Nat.Init

namespace HermesPlatform
namespace JsonLoads

/-- What the values are made with. -/
structure Builder (V : Type) where
  null : V
  bool : Bool → V
  int : Int → V
  float : List Nat → V
  str : List Nat → V
  list : List V → V
  dict : List (List Nat × V) → V
  /-- `sys.get_int_max_str_digits()`. -/
  maxDigits : Nat

/-- How reading ends without a value. -/
inductive Fault where
  /-- No JSON: a JSONDecodeError. -/
  | malformed
  /-- More digits than an integer may have: a ValueError. -/
  | longInteger
  | recursion
  /-- The recursion of the model is at its end. -/
  | exhausted
  deriving DecidableEq, Repr

/-! ## Strings -/

def isBlank (c : Nat) : Bool :=
  c = ' '.toNat || c = '\t'.toNat || c = '\n'.toNat || c = '\r'.toNat

def skip (cs : List Nat) : List Nat := cs.dropWhile isBlank

def isDigit (c : Nat) : Bool := '0'.toNat ≤ c && c ≤ '9'.toNat

def hexDigit? (c : Nat) : Option Nat :=
  if isDigit c then some (c - 48)
  else if 'a'.toNat ≤ c ∧ c ≤ 'f'.toNat then some (c - 87)
  else if 'A'.toNat ≤ c ∧ c ≤ 'F'.toNat then some (c - 55)
  else none

def readUnit (a b c d : Nat) : Option Nat :=
  match hexDigit? a, hexDigit? b, hexDigit? c, hexDigit? d with
  | some a, some b, some c, some d => some (a * 4096 + b * 256 + c * 16 + d)
  | _, _, _, _ => none

/-- The escapes of one letter. -/
def readEscape (e : Nat) : Option Nat :=
  if e = '"'.toNat ∨ e = '\\'.toNat ∨ e = '/'.toNat then some e
  else if e = 'n'.toNat then some 10
  else if e = 'r'.toNat then some 13
  else if e = 't'.toNat then some 9
  else if e = 'b'.toNat then some 8
  else if e = 'f'.toNat then some 12
  else none

/-- The units of a literal behind its first quote, with a mark on those that were written as
    `\uXXXX`, and what follows the literal. -/
def scanString : List Nat → Option (List (Nat × Bool) × List Nat)
  | [] => none
  | c :: rest =>
      if c = '"'.toNat then some ([], rest)
      else if c = '\\'.toNat then
        match rest with
        | [] => none
        | e :: rest =>
            if e = 'u'.toNat then
              match rest with
              | h₁ :: h₂ :: h₃ :: h₄ :: rest =>
                  match readUnit h₁ h₂ h₃ h₄ with
                  | none => none
                  | some u => (scanString rest).map fun r => ((u, true) :: r.1, r.2)
              | _ => none
            else
              match readEscape e with
              | none => none
              | some u => (scanString rest).map fun r => ((u, false) :: r.1, r.2)
      else if c < 32 then none
      else (scanString rest).map fun r => ((c, false) :: r.1, r.2)

/-- Two escapes that are a surrogate pair are one code point; half a pair stays as it is. -/
def joinUnit (u : Nat × Bool) : List (Nat × Bool) → List (Nat × Bool)
  | (v, true) :: rest =>
      if u.2 ∧ 0xD800 ≤ u.1 ∧ u.1 ≤ 0xDBFF ∧ 0xDC00 ≤ v ∧ v ≤ 0xDFFF then
        (0x10000 + (u.1 - 0xD800) * 1024 + (v - 0xDC00), false) :: rest
      else u :: (v, true) :: rest
  | rest => u :: rest

def joinUnits (units : List (Nat × Bool)) : List Nat := (units.foldr joinUnit []).map Prod.fst

/-- A string behind its first quote. -/
def readString (cs : List Nat) : Except Fault (List Nat × List Nat) :=
  match scanString cs with
  | none => .error .malformed
  | some (units, rest) => .ok (joinUnits units, rest)

/-! ## Numbers and words -/

/-- `0|[1-9]\d*`. -/
def readDigits (cs : List Nat) : Option (List Nat × List Nat) :=
  if cs.head? = some '0'.toNat then some (['0'.toNat], cs.tail)
  else if cs.takeWhile isDigit = [] then none
  else some (cs.takeWhile isDigit, cs.dropWhile isDigit)

/-- `(\.\d+)?`. -/
def readFraction (cs : List Nat) : List Nat × List Nat :=
  if cs.head? = some '.'.toNat ∧ cs.tail.takeWhile isDigit ≠ [] then
    ('.'.toNat :: cs.tail.takeWhile isDigit, cs.tail.dropWhile isDigit)
  else ([], cs)

/-- `[-+]?`. -/
def readSign (cs : List Nat) : List Nat × List Nat :=
  if cs.head? = some '+'.toNat ∨ cs.head? = some '-'.toNat then (cs.take 1, cs.tail) else ([], cs)

/-- `([eE][-+]?\d+)?`. -/
def readExponent (cs : List Nat) : List Nat × List Nat :=
  let (sign, rest) := readSign cs.tail
  if (cs.head? = some 'e'.toNat ∨ cs.head? = some 'E'.toNat) ∧ rest.takeWhile isDigit ≠ [] then
    (cs.take 1 ++ sign ++ rest.takeWhile isDigit, rest.dropWhile isDigit)
  else ([], cs)

variable {V : Type} (b : Builder V)

/-- The words that stand for a value. -/
def valueWords : List (List Nat × V) :=
  [("null".toList.map Char.toNat, b.null), ("true".toList.map Char.toNat, b.bool true),
    ("false".toList.map Char.toNat, b.bool false),
    ("NaN".toList.map Char.toNat, b.float ("nan".toList.map Char.toNat)),
    ("Infinity".toList.map Char.toNat, b.float ("inf".toList.map Char.toNat)),
    ("-Infinity".toList.map Char.toNat, b.float ("-inf".toList.map Char.toNat))]

def readWord (cs : List Nat) : Except Fault (V × List Nat) :=
  match (valueWords b).find? fun w => w.1.isPrefixOf cs with
  | none => .error .malformed
  | some w => .ok (w.2, cs.drop w.1.length)

def digitsValue (digits : List Nat) : Nat := digits.foldl (fun v c => 10 * v + (c - 48)) 0

/-- A value that is neither a string nor an array nor an object. -/
def readScalar (cs : List Nat) : Except Fault (V × List Nat) :=
  let minus := if cs.head? = some '-'.toNat then cs.take 1 else []
  match readDigits (cs.drop minus.length) with
  | none => readWord b cs
  | some (digits, rest) =>
      let (fraction, rest) := readFraction rest
      let (exponent, rest) := readExponent rest
      if fraction = [] ∧ exponent = [] then
        if b.maxDigits < digits.length then .error .longInteger
        else .ok (b.int (if minus = [] then digitsValue digits else -digitsValue digits), rest)
      else .ok (b.float (minus ++ digits ++ fraction ++ exponent), rest)

/-! ## Values -/

/-- A call of the scanner within another one. -/
def entering {α : Type} : Nat → (Nat → Except Fault α) → Except Fault α
  | 0, _ => .error .recursion
  | room + 1, call => call room

mutual
/-- A value at the start of a text.  The first argument bounds the recursion of the model, the
    second one is the room for calls within one another. -/
def readValue : Nat → Nat → List Nat → Except Fault (V × List Nat)
  | 0, _, _ => .error .exhausted
  | _ + 1, _, [] => .error .malformed
  | n + 1, room, c :: rest =>
      if c = '"'.toNat then do
        let (s, rest) ← readString rest
        return (b.str s, rest)
      else if c = '['.toNat then
        entering room fun room =>
          if (skip rest).head? = some ']'.toNat then .ok (b.list [], (skip rest).tail)
          else do
            let (items, rest) ← readItems n room (skip rest)
            return (b.list items, rest)
      else if c = '\x7b'.toNat then
        entering room fun room =>
          if (skip rest).head? = some '\x7d'.toNat then .ok (b.dict [], (skip rest).tail)
          else do
            let (members, rest) ← readMembers n room (skip rest)
            return (b.dict members, rest)
      else readScalar b (c :: rest)
/-- The items of an array, up to its bracket. -/
def readItems : Nat → Nat → List Nat → Except Fault (List V × List Nat)
  | 0, _, _ => .error .exhausted
  | n + 1, room, cs => do
      let (v, rest) ← readValue n room cs
      match skip rest with
      | [] => .error .malformed
      | c :: rest =>
          if c = ','.toNat then do
            let (items, rest) ← readItems n room (skip rest)
            return (v :: items, rest)
          else if c = ']'.toNat then .ok ([v], rest)
          else .error .malformed
/-- The members of an object, up to its brace. -/
def readMembers : Nat → Nat → List Nat → Except Fault (List (List Nat × V) × List Nat)
  | 0, _, _ => .error .exhausted
  | _ + 1, _, [] => .error .malformed
  | n + 1, room, c :: rest =>
      if c = '"'.toNat then do
        let (k, rest) ← readString rest
        match skip rest with
        | [] => .error .malformed
        | c :: rest =>
            if c = ':'.toNat then do
              let (v, rest) ← readValue n room (skip rest)
              match skip rest with
              | [] => .error .malformed
              | c :: rest =>
                  if c = ','.toNat then do
                    let (members, rest) ← readMembers n room (skip rest)
                    return ((k, v) :: members, rest)
                  else if c = '\x7d'.toNat then .ok ([(k, v)], rest)
                  else .error .malformed
            else .error .malformed
      else .error .malformed
end

/-- `json.loads(text)` where there is room for so many calls. -/
def load (room : Nat) (cs : List Nat) : Except Fault V := do
  let (v, rest) ← readValue b (2 * cs.length + 1) room (skip cs)
  if skip rest = [] then return v else .error .malformed

/-! ## Nesting -/

/-- How far a reader comes: the brackets that it opens within one another, and the text behind
    what it reads unless it meets an error. -/
structure Extent where
  depth : Nat
  rest : Option (List Nat)

def Extent.around (e : Extent) : Extent := ⟨e.depth + 1, e.rest⟩

def Extent.andThen (e : Extent) (f : List Nat → Extent) : Extent :=
  match e.rest with
  | none => e
  | some rest => ⟨max e.depth (f rest).depth, (f rest).rest⟩

/-- The extent of a reader that opens no bracket. -/
def flat {α : Type} (reply : Except Fault (α × List Nat)) : Extent :=
  ⟨0, reply.toOption.map Prod.snd⟩

mutual
def skimValue : Nat → List Nat → Extent
  | 0, _ => ⟨0, none⟩
  | _ + 1, [] => ⟨0, none⟩
  | n + 1, c :: rest =>
      if c = '"'.toNat then flat (readString rest)
      else if c = '['.toNat then
        .around <|
          if (skip rest).head? = some ']'.toNat then ⟨0, some (skip rest).tail⟩
          else skimItems n (skip rest)
      else if c = '\x7b'.toNat then
        .around <|
          if (skip rest).head? = some '\x7d'.toNat then ⟨0, some (skip rest).tail⟩
          else skimMembers n (skip rest)
      else flat (readScalar b (c :: rest))
def skimItems : Nat → List Nat → Extent
  | 0, _ => ⟨0, none⟩
  | n + 1, cs =>
      (skimValue n cs).andThen fun rest =>
        match skip rest with
        | [] => ⟨0, none⟩
        | c :: rest =>
            if c = ','.toNat then skimItems n (skip rest)
            else if c = ']'.toNat then ⟨0, some rest⟩
            else ⟨0, none⟩
def skimMembers : Nat → List Nat → Extent
  | 0, _ => ⟨0, none⟩
  | _ + 1, [] => ⟨0, none⟩
  | n + 1, c :: rest =>
      if c = '"'.toNat then
        (flat (readString rest)).andThen fun rest =>
          match skip rest with
          | [] => ⟨0, none⟩
          | c :: rest =>
              if c = ':'.toNat then
                (skimValue n (skip rest)).andThen fun rest =>
                  match skip rest with
                  | [] => ⟨0, none⟩
                  | c :: rest =>
                      if c = ','.toNat then skimMembers n (skip rest)
                      else if c = '\x7d'.toNat then ⟨0, some rest⟩
                      else ⟨0, none⟩
              else ⟨0, none⟩
      else ⟨0, none⟩
end

/-- The brackets that are opened within one another up to the end of the value or to the first
    error. -/
def nesting (cs : List Nat) : Nat := (skimValue b (2 * cs.length + 1) (skip cs)).depth

/-! ## Room -/

/-- What is left of a reply without the value and without the kind of the error: nothing for a
    RecursionError. -/
def outcome {α : Type} : Except Fault (α × List Nat) → Option (Option (List Nat))
  | .ok r => some (some r.2)
  | .error .recursion => none
  | .error _ => some none

/-- The outcome that an extent leads to. -/
def Extent.outcome (room : Nat) (e : Extent) : Option (Option (List Nat)) :=
  if room < e.depth then none else some e.rest

variable {α β : Type}

theorem outcome_bind {room : Nat} {reply : Except Fault (α × List Nat)} {e : Extent}
    {g : α × List Nat → Except Fault (β × List Nat)} {f : List Nat → Extent}
    (h : outcome reply = e.outcome room)
    (hnext : ∀ a rest, outcome (g (a, rest)) = (f rest).outcome room) :
    outcome (reply >>= g) = (e.andThen f).outcome room := by
  obtain ⟨depth, rest⟩ := e
  simp only [Extent.outcome] at h
  by_cases hroom : room < depth
  · -- The first reader is out of room, and the second one is not called.
    rw [if_pos hroom] at h
    have hraised : reply = .error .recursion := by
      cases reply with
      | ok r => cases h
      | error fault => cases fault <;> first | rfl | cases h
    have hdeep : room < (Extent.andThen ⟨depth, rest⟩ f).depth := by
      cases rest with
      | none => exact hroom
      | some rest => exact Nat.lt_of_lt_of_le hroom (Nat.le_max_left _ _)
    rw [hraised, Extent.outcome, if_pos hdeep]
    rfl
  · rw [if_neg hroom] at h
    cases reply with
    | error fault =>
        have hrest : rest = none := by cases fault <;> cases h <;> rfl
        have hfault : fault ≠ .recursion := by rintro rfl; cases h
        subst hrest
        have hleft : outcome (.error fault >>= g) = some none := by
          cases fault <;> first | rfl | exact absurd rfl hfault
        rw [hleft, Extent.andThen, Extent.outcome, if_neg hroom]
    | ok r =>
        obtain ⟨a, behind⟩ := r
        cases h
        -- The first reader had room enough, so the deeper of the two is the second one.
        have hmax : room < max depth (f behind).depth ↔ room < (f behind).depth := by omega
        have hleft : outcome (.ok (a, behind) >>= g) = outcome (g (a, behind)) := rfl
        rw [hleft, hnext, Extent.outcome, Extent.outcome, Extent.andThen]
        simp only [hmax]

theorem outcome_map (make : α → β) (reply : Except Fault (α × List Nat)) :
    outcome (do let (a, rest) ← reply; return (make a, rest)) = outcome reply := by
  cases reply with
  | ok r => rfl
  | error fault => cases fault <;> rfl

theorem outcome_flat {reply : Except Fault (α × List Nat)} (h : reply ≠ .error .recursion)
    (room : Nat) : outcome reply = (flat reply).outcome room := by
  cases reply with
  | ok r => rfl
  | error fault =>
      cases fault with
      | recursion => exact absurd rfl h
      | malformed | longInteger | exhausted => rfl

theorem readString_ne_recursion (cs : List Nat) : readString cs ≠ .error .recursion := by
  rw [readString]
  split <;> rintro ⟨⟩

theorem readScalar_ne_recursion (cs : List Nat) : readScalar b cs ≠ .error .recursion := by
  simp only [readScalar, readWord]
  repeat' split
  all_goals rintro ⟨⟩

theorem outcome_entering {e : Extent} {call : Nat → Except Fault (α × List Nat)}
    (h : ∀ room, outcome (call room) = e.outcome room) (room : Nat) :
    outcome (entering room call) = e.around.outcome room := by
  cases room with
  | zero => exact (if_pos (Nat.succ_pos e.depth)).symm
  | succ room =>
      rw [entering, h, Extent.outcome, Extent.outcome, Extent.around]
      simp only [Nat.add_lt_add_iff_right]

/-- **Room.**  The reader raises a RecursionError just where its extent is deeper than there is
    room for, and otherwise comes as far as the extent says. -/
theorem outcome_read (n : Nat) :
    (∀ room cs, outcome (readValue b n room cs) = (skimValue b n cs).outcome room) ∧
    (∀ room cs, outcome (readItems b n room cs) = (skimItems b n cs).outcome room) ∧
    (∀ room cs, outcome (readMembers b n room cs) = (skimMembers b n cs).outcome room) := by
  induction n with
  | zero => exact ⟨fun _ _ => rfl, fun _ _ => rfl, fun _ _ => rfl⟩
  | succ n ih =>
      obtain ⟨ihvalue, ihitems, ihmembers⟩ := ih
      refine ⟨?_, ?_, ?_⟩
      · intro room cs
        cases cs with
        | nil => rfl
        | cons c rest =>
            rw [readValue, skimValue]
            split
            · rw [outcome_map]
              exact outcome_flat (readString_ne_recursion rest) room
            split
            · -- The items have one call less.
              refine outcome_entering (fun room => ?_) room
              split
              · rfl
              · rw [outcome_map, ihitems]
            split
            · refine outcome_entering (fun room => ?_) room
              split
              · rfl
              · rw [outcome_map, ihmembers]
            · exact outcome_flat (readScalar_ne_recursion b _) room
      · intro room cs
        rw [readItems, skimItems]
        refine outcome_bind (ihvalue room cs) ?_
        intro v rest
        simp only
        split
        · rfl
        split
        · rw [outcome_map, ihitems]
        split
        · rfl
        · rfl
      · intro room cs
        cases cs with
        | nil => rfl
        | cons c rest =>
            rw [readMembers, skimMembers]
            split
            · refine outcome_bind (outcome_flat (readString_ne_recursion rest) room) ?_
              intro k rest
              simp only
              split
              · rfl
              split
              · refine outcome_bind (ihvalue room _) ?_
                intro v rest
                simp only
                split
                · rfl
                split
                · rw [outcome_map, ihmembers]
                split
                · rfl
                · rfl
              · rfl
            · rfl

theorem outcome_eq_none {reply : Except Fault (α × List Nat)} :
    outcome reply = none ↔ reply = .error .recursion := by
  cases reply with
  | ok r => exact ⟨by rintro ⟨⟩, by rintro ⟨⟩⟩
  | error fault => cases fault <;> simp [outcome]

/-- **RecursionError.**  It is raised just when the text is nested more deeply than there is room
    for. -/
theorem load_recursion_iff (room : Nat) (cs : List Nat) :
    load b room cs = .error .recursion ↔ room < nesting b cs := by
  have hread := (outcome_read b (2 * cs.length + 1)).1 room (skip cs)
  have hdeep : (skimValue b (2 * cs.length + 1) (skip cs)).outcome room = none ↔
      room < nesting b cs := by
    rw [Extent.outcome, nesting]
    split
    next h => exact ⟨fun _ => h, fun _ => rfl⟩
    next h => exact ⟨by rintro ⟨⟩, fun hlt => absurd hlt h⟩
  rw [← hdeep, ← hread, outcome_eq_none, load]
  cases readValue b (2 * cs.length + 1) room (skip cs) with
  | error fault =>
      constructor
      · intro h
        cases h
        rfl
      · intro h
        cases h
        rfl
  | ok r =>
      obtain ⟨v, rest⟩ := r
      refine ⟨fun h => ?_, by rintro ⟨⟩⟩
      by_cases hend : skip rest = []
      · simp [hend, bind, Except.bind, pure, Except.pure] at h
      · simp [hend, bind, Except.bind] at h

/-! ## The end of the recursion -/

/-- The reader comes to an end, and a text behind it is shorter than `k`. -/
def Ends (k : Nat) : Except Fault (α × List Nat) → Prop
  | .ok r => r.2.length < k
  | .error fault => fault ≠ .exhausted

theorem ends_bind {k m : Nat} {reply : Except Fault (α × List Nat)}
    {g : α × List Nat → Except Fault (β × List Nat)} (h : Ends k reply)
    (hnext : ∀ a rest, rest.length < k → Ends m (g (a, rest))) : Ends m (reply >>= g) := by
  cases reply with
  | ok r => exact hnext r.1 r.2 h
  | error fault => exact h

theorem ends_map {k m : Nat} (make : α → β) {reply : Except Fault (α × List Nat)}
    (h : Ends k reply) (hle : k ≤ m) :
    Ends m (do let (a, rest) ← reply; return (make a, rest)) :=
  ends_bind h fun _ _ hrest => Nat.lt_of_lt_of_le hrest hle

theorem ends_entering {k : Nat} {call : Nat → Except Fault (α × List Nat)}
    (h : ∀ room, Ends k (call room)) (room : Nat) : Ends k (entering room call) := by
  cases room with
  | zero => rintro ⟨⟩
  | succ room => exact h room

theorem length_skip_le (cs : List Nat) : (skip cs).length ≤ cs.length :=
  (List.dropWhile_suffix isBlank).length_le

theorem length_skip_cons {cs : List Nat} {c : Nat} {rest : List Nat} (h : skip cs = c :: rest) :
    rest.length < cs.length := by
  have hle := length_skip_le cs
  rw [h, List.length_cons] at hle
  omega

theorem length_scanString {cs : List Nat} {r : List (Nat × Bool) × List Nat}
    (h : scanString cs = some r) : r.2.length < cs.length := by
  fun_induction scanString cs generalizing r with
  | case1 | case3 | case4 | case6 | case7 | case9 => cases h
  | case2 rest =>
      cases h
      exact Nat.lt_succ_self _
  | case5 h₁ h₂ h₃ h₄ rest u _ _ ih =>
      obtain ⟨r, hr, rfl⟩ := Option.map_eq_some_iff.mp h
      have hrest := ih hr
      simp only [List.length_cons]
      omega
  | case8 e rest _ u _ _ ih =>
      obtain ⟨r, hr, rfl⟩ := Option.map_eq_some_iff.mp h
      have hrest := ih hr
      simp only [List.length_cons]
      omega
  | case10 c rest _ _ _ ih =>
      obtain ⟨r, hr, rfl⟩ := Option.map_eq_some_iff.mp h
      have hrest := ih hr
      simp only [List.length_cons]
      omega

theorem ends_readString (cs : List Nat) : Ends cs.length (readString cs) := by
  rw [readString]
  split
  · rintro ⟨⟩
  next h => exact length_scanString h

theorem length_dropWhile_le (cs : List Nat) : (cs.dropWhile isDigit).length ≤ cs.length :=
  (List.dropWhile_suffix isDigit).length_le

theorem length_readDigits {cs digits rest : List Nat} (h : readDigits cs = some (digits, rest)) :
    rest.length < cs.length := by
  rw [readDigits] at h
  split at h
  next hzero =>
    cases h
    cases cs with
    | nil => cases hzero
    | cons c rest => exact Nat.lt_succ_self _
  next =>
    split at h
    next => cases h
    next hdigits =>
      cases h
      have hsplit := congrArg List.length (List.takeWhile_append_dropWhile (p := isDigit) (l := cs))
      have hpos := List.length_pos_iff.mpr hdigits
      rw [List.length_append] at hsplit
      omega

theorem length_readFraction_le (cs : List Nat) : (readFraction cs).2.length ≤ cs.length := by
  rw [readFraction]
  split
  next =>
    have hdrop := length_dropWhile_le cs.tail
    rw [List.length_tail] at hdrop
    exact Nat.le_trans hdrop (Nat.sub_le _ _)
  next => exact Nat.le_refl _

theorem length_readExponent_le (cs : List Nat) : (readExponent cs).2.length ≤ cs.length := by
  have hsign : (readSign cs.tail).2.length ≤ cs.length := by
    rw [readSign]
    split
    all_goals
      simp only [List.length_tail]
      omega
  rw [readExponent]
  simp only
  split
  next => exact Nat.le_trans (length_dropWhile_le _) hsign
  next => exact Nat.le_refl _

theorem ends_readWord (cs : List Nat) : Ends cs.length (readWord b cs) := by
  rw [readWord]
  split
  · rintro ⟨⟩
  next w hw =>
    have hmem := List.mem_of_find?_eq_some hw
    have hfound : w.1.isPrefixOf cs = true := by simpa using List.find?_some hw
    have hprefix := List.isPrefixOf_iff_prefix.mp hfound
    have hlong : ∀ w ∈ valueWords b, 0 < w.1.length := by
      simp [valueWords]
    have hpos := hlong w hmem
    have hle := hprefix.length_le
    simp only [Ends, List.length_drop]
    omega

theorem ends_readScalar (cs : List Nat) : Ends cs.length (readScalar b cs) := by
  simp only [readScalar]
  split
  · exact ends_readWord b cs
  next digits rest hdigits =>
    have hlength := length_readDigits hdigits
    have hfraction := length_readFraction_le rest
    have hexponent := length_readExponent_le (readFraction rest).2
    rw [List.length_drop] at hlength
    split
    · split
      · rintro ⟨⟩
      · simp only [Ends]
        omega
    · simp only [Ends]
      omega

/-- With two steps for each character the reader comes to an end. -/
theorem ends_read (n : Nat) :
    (∀ room cs, 2 * cs.length + 1 ≤ n → Ends cs.length (readValue b n room cs)) ∧
    (∀ room cs, 2 * cs.length + 2 ≤ n → Ends cs.length (readItems b n room cs)) ∧
    (∀ room cs, 2 * cs.length + 1 ≤ n → Ends cs.length (readMembers b n room cs)) := by
  induction n with
  | zero => exact ⟨fun _ _ h => absurd h (by omega), fun _ _ h => absurd h (by omega),
      fun _ _ h => absurd h (by omega)⟩
  | succ n ih =>
      obtain ⟨ihvalue, ihitems, ihmembers⟩ := ih
      refine ⟨?_, ?_, ?_⟩
      · intro room cs hn
        cases cs with
        | nil => rintro ⟨⟩
        | cons c rest =>
            have hskip := length_skip_le rest
            rw [List.length_cons] at hn
            rw [readValue, List.length_cons]
            split
            · exact ends_map b.str (ends_readString rest) (Nat.le_succ _)
            split
            · refine ends_entering (fun room => ?_) room
              split
              · simp only [Ends, List.length_tail]
                omega
              · exact ends_map b.list (ihitems room _ (by omega)) (by omega)
            split
            · refine ends_entering (fun room => ?_) room
              split
              · simp only [Ends, List.length_tail]
                omega
              · exact ends_map b.dict (ihmembers room _ (by omega)) (by omega)
            · exact ends_readScalar b (c :: rest)
      · intro room cs hn
        rw [readItems]
        -- The first item is read from the same text, which is why this takes a step more.
        refine ends_bind (ihvalue room cs (by omega)) ?_
        intro v rest hrest
        simp only
        split
        · rintro ⟨⟩
        next c behind hbehind =>
          have hlength := length_skip_cons hbehind
          have hskip := length_skip_le behind
          split
          · exact ends_map _ (ihitems room _ (by omega)) (by omega)
          split
          · simp only [Ends]
            omega
          · rintro ⟨⟩
      · intro room cs hn
        cases cs with
        | nil => rintro ⟨⟩
        | cons c rest =>
            rw [List.length_cons] at hn
            rw [readMembers, List.length_cons]
            split
            · refine ends_bind (ends_readString rest) ?_
              intro k rest' hrest'
              simp only
              split
              · rintro ⟨⟩
              next c colon hcolon =>
                have hlength := length_skip_cons hcolon
                have hskip := length_skip_le colon
                split
                · refine ends_bind (ihvalue room _ (by omega)) ?_
                  intro v behind hbehind
                  simp only
                  split
                  · rintro ⟨⟩
                  next c next hnext =>
                    have hlength' := length_skip_cons hnext
                    have hskip' := length_skip_le next
                    split
                    · exact ends_map _ (ihmembers room _ (by omega)) (by omega)
                    split
                    · simp only [Ends]
                      omega
                    · rintro ⟨⟩
                · rintro ⟨⟩
            · rintro ⟨⟩

/-- `load` is not cut short by the bound of its recursion. -/
theorem load_ne_exhausted (room : Nat) (cs : List Nat) : load b room cs ≠ .error .exhausted := by
  have hlength := length_skip_le cs
  have hends := (ends_read b (2 * cs.length + 1)).1 room (skip cs) (by omega)
  rw [load]
  cases hread : readValue b (2 * cs.length + 1) room (skip cs) with
  | error fault =>
      rw [hread] at hends
      intro h
      cases h
      exact hends rfl
  | ok r =>
      obtain ⟨v, rest⟩ := r
      by_cases hend : skip rest = []
      · simp [hend, bind, Except.bind, pure, Except.pure]
      · simp [hend, bind, Except.bind]

end JsonLoads
end HermesPlatform
