/-
  HermesPlatform.Lib.Lexer

  The lexemes of a text, by a scanner that reads one at a time.

  At a boundary between lexemes the scanner tells the kind and the length of the one that
  the rest of the text begins with; what follows a lexeme may take part in that, as it does
  in a longest match.  `Reads` relates a text to the lexemes read from its front and to what
  is left, and `lexemes` computes it for a whole text.

  `Reads.append`: a text keeps its lexemes when more is written after it, unless its last
  lexeme is of an open-ended kind, one that may run on.
-/

import Mathlib.Data.List.Basic

namespace HermesPlatform
namespace Lexer

variable {α κ : Type}

/-- Kind and length of the first lexeme of a text; `none` is a lexical error. -/
abbrev Scanner (α κ : Type) := List α → Option (κ × Nat)

/-- `Reads next text ls rest`: the lexemes `ls` are read from the text and leave `rest`. -/
inductive Reads (next : Scanner α κ) : List α → List (κ × List α) → List α → Prop where
  | done (text : List α) : Reads next text [] text
  | lexeme {k : κ} {cs text rest : List α} {ls : List (κ × List α)} (ne : cs ≠ [])
      (first : next (cs ++ text) = some (k, cs.length)) (others : Reads next text ls rest) :
      Reads next (cs ++ text) ((k, cs) :: ls) rest

variable {next : Scanner α κ}

theorem Reads.trans {text mid rest : List α} {ls ls' : List (κ × List α)}
    (h : Reads next text ls mid) (h' : Reads next mid ls' rest) :
    Reads next text (ls ++ ls') rest := by
  induction h with
  | done text => exact h'
  | lexeme ne first others ih => exact .lexeme ne first (ih h')

theorem Reads.one {k : κ} (cs text : List α) (ne : cs ≠ [])
    (first : next (cs ++ text) = some (k, cs.length)) : Reads next (cs ++ text) [(k, cs)] text :=
  .lexeme ne first (.done text)

theorem Reads.cons_inv {k : κ} {cs text rest : List α} {ls : List (κ × List α)}
    (h : Reads next text ((k, cs) :: ls) rest) :
    ∃ text', text = cs ++ text' ∧ next text = some (k, cs.length) ∧ Reads next text' ls rest := by
  cases h with
  | lexeme ne first others => exact ⟨_, rfl, first, others⟩

/-- A text that is one lexeme. -/
theorem Reads.whole {k : κ} {cs : List α} (ne : cs ≠ []) (h : next cs = some (k, cs.length)) :
    Reads next cs [(k, cs)] [] := by
  have hone : Reads next (cs ++ []) [(k, cs)] [] := .one cs [] ne (by rw [List.append_nil, h])
  rwa [List.append_nil] at hone

/-- What is left after the first part of the lexemes. -/
theorem Reads.split {text rest : List α} :
    ∀ {ls ls' : List (κ × List α)}, Reads next text (ls ++ ls') rest →
      ∃ mid, Reads next text ls mid ∧ Reads next mid ls' rest := by
  intro ls
  induction ls generalizing text with
  | nil =>
      intro ls' h
      exact ⟨text, .done text, h⟩
  | cons l ls ih =>
      intro ls' h
      cases h with
      | lexeme ne first others =>
          obtain ⟨mid, hls, hls'⟩ := ih others
          exact ⟨mid, .lexeme ne first hls, hls'⟩

/-- Each lexeme has been read at its place in the text. -/
theorem Reads.of_mem {text rest : List α} {ls : List (κ × List α)} {l : κ × List α}
    (h : Reads next text ls rest) (hl : l ∈ ls) :
    ∃ after, l.2 ≠ [] ∧ next (l.2 ++ after) = some (l.1, l.2.length) ∧ l.2 ++ after <:+ text := by
  induction h with
  | done text => cases hl
  | lexeme ne first others ih =>
      obtain rfl | hl := List.mem_cons.mp hl
      · exact ⟨_, ne, first, List.suffix_rfl⟩
      · obtain ⟨after, hne, hfirst, hsuffix⟩ := ih hl
        exact ⟨after, hne, hfirst, hsuffix.trans (List.suffix_append _ _)⟩

/-- There is nothing to read in the empty text. -/
theorem Reads.of_nil {text rest : List α} {ls : List (κ × List α)} (h : Reads next text ls rest)
    (htext : text = []) : ls = [] ∧ rest = [] := by
  cases h with
  | done => exact ⟨rfl, htext⟩
  | lexeme ne first others => exact absurd (List.append_eq_nil_iff.mp htext).1 ne

/-! ## The lexemes of a whole text -/

/-- Reads on until the text is used up; a lexeme takes up a character at least. -/
def lexemesWithin (next : Scanner α κ) : Nat → List α → Option (List (κ × List α))
  | _, [] => some []
  | 0, _ :: _ => none
  | fuel + 1, text =>
      match next text with
      | none => none
      | some (k, n) =>
          if 0 < n ∧ n ≤ text.length then
            (lexemesWithin next fuel (text.drop n)).map ((k, text.take n) :: ·)
          else none

/-- The lexemes of a text; `none` where the scanner stops in it. -/
def lexemes (next : Scanner α κ) (text : List α) : Option (List (κ × List α)) :=
  lexemesWithin next text.length text

theorem Reads.of_lexemesWithin {fuel : Nat} {text : List α} {ls : List (κ × List α)}
    (h : lexemesWithin next fuel text = some ls) : Reads next text ls [] := by
  induction fuel generalizing text ls with
  | zero =>
      cases text with
      | nil =>
          cases h
          exact .done []
      | cons c text => cases h
  | succ fuel ih =>
      cases text with
      | nil =>
          cases h
          exact .done []
      | cons c text =>
          simp only [lexemesWithin] at h
          split at h
          next => cases h
          next k n hfirst =>
            split at h
            next hlength =>
              rw [Option.map_eq_some_iff] at h
              obtain ⟨others, hothers, rfl⟩ := h
              have htake : ((c :: text).take n).length = n := List.length_take_of_le hlength.2
              have hread : Reads next ((c :: text).take n ++ (c :: text).drop n)
                  ((k, (c :: text).take n) :: others) [] :=
                .lexeme (List.ne_nil_of_length_pos (by omega))
                  (by rw [List.take_append_drop, hfirst, htake]) (ih hothers)
              rwa [List.take_append_drop] at hread
            next => cases h

theorem Reads.lexemesWithin_eq {fuel : Nat} {text rest : List α} {ls : List (κ × List α)}
    (h : Reads next text ls rest) (hrest : rest = []) (hfuel : text.length ≤ fuel) :
    lexemesWithin next fuel text = some ls := by
  induction h generalizing fuel with
  | done text =>
      subst hrest
      cases fuel <;> rfl
  | @lexeme k cs text rest ls ne first others ih =>
      have hpos : 0 < cs.length := List.length_pos_of_ne_nil ne
      rw [List.length_append] at hfuel
      obtain ⟨fuel, rfl⟩ : ∃ m, fuel = m + 1 := ⟨fuel - 1, by omega⟩
      obtain ⟨c, cs, rfl⟩ := List.exists_cons_of_ne_nil ne
      have hothers := ih hrest (show text.length ≤ fuel by omega)
      simp only [List.cons_append] at first ⊢
      simp only [lexemesWithin, first]
      rw [if_pos ⟨hpos, by simp⟩]
      simp [hothers]

/-- **The lexemes of a text** are what can be read from it to its end. -/
theorem lexemes_eq_some_iff {text : List α} {ls : List (κ × List α)} :
    lexemes next text = some ls ↔ Reads next text ls [] :=
  ⟨Reads.of_lexemesWithin, fun h => h.lexemesWithin_eq rfl (Nat.le_refl _)⟩

/-! ## More text after a text -/

/-- A lexeme stays as it is when `extra` is written at the end, whatever follows it inside
    the text; at the end of the text, if its kind is not open-ended. -/
structure Keeps (next : Scanner α κ) (extra : List α) (openEnded : κ → Prop) : Prop where
  inside : ∀ k cs text, text ≠ [] → next (cs ++ text) = some (k, cs.length) →
    next (cs ++ (text ++ extra)) = some (k, cs.length)
  atEnd : ∀ k cs, ¬ openEnded k → next cs = some (k, cs.length) →
    next (cs ++ extra) = some (k, cs.length)

/-- **Appending.** -/
theorem Reads.append {extra : List α} {openEnded : κ → Prop} (hkeeps : Keeps next extra openEnded)
    {text rest : List α} {ls : List (κ × List α)} (h : Reads next text ls rest)
    (hclosed : rest = [] → ∀ last ∈ ls.getLast?, ¬ openEnded last.1) :
    Reads next (text ++ extra) ls (rest ++ extra) := by
  induction h with
  | done text => exact .done _
  | @lexeme k cs text rest ls ne first others ih =>
      have hothers : rest = [] → ∀ last ∈ ls.getLast?, ¬ openEnded last.1 := by
        intro hrest last hlast
        apply hclosed hrest last
        rw [List.getLast?_cons, hlast]
        rfl
      rw [List.append_assoc]
      refine .lexeme ne ?_ (ih hothers)
      by_cases htext : text = []
      · -- The lexeme is the last one of the text.
        obtain ⟨rfl, rfl⟩ := others.of_nil htext
        subst htext
        rw [List.append_nil] at first
        exact hkeeps.atEnd k cs (hclosed rfl (k, cs) rfl) first
      · exact hkeeps.inside k cs text htext first

end Lexer
end HermesPlatform
