/-
  HermesPlatform.Lib.Quoting

  Quoted tokens: a value between an opening and a closing character, with the closing
  character doubled where it occurs in the value.

  A grammar may read more into the text between the quotes than that, so a value written by
  doubling need not come back.  `Quoting` is such a grammar; `tokens` lexes a text with it, and
  `tokens_render_iff` says which values come back from any text they are written into: those in
  which, followed by the closing character, the grammar finds no escape sequence.
-/

import HermesPlatform.Lib.Lexer
import Mathlib.Data.List.Infix

namespace HermesPlatform

/-- What a grammar finds at the front of a text between quotes: no escape sequence, a malformed
    one, or one of `length` characters that stands for a character or for none. -/
inductive Escape (α : Type) where
  | absent
  | malformed
  | sequence (out : Option α) (length : Nat)
  deriving DecidableEq

structure Quoting (α : Type) where
  opening : α
  closing : α
  /-- Whether two closing characters stand for one. -/
  doubled : Bool
  escape : List α → Escape α
  escape_closing : ∀ cs, escape (closing :: cs) = .absent
  two_le : ∀ cs out n, escape cs = .sequence out n → 2 ≤ n
  /-- Whether there is an escape sequence shows before the next closing character, that one
      included. -/
  escape_local : ∀ s x y, closing ∉ s → escape (s ++ closing :: x) = .absent →
    escape (s ++ closing :: y) = .absent

namespace Quoting

inductive Token (α : Type) where
  | quoted (v : List α)
  | other (c : α)
  deriving DecidableEq

variable {α : Type} (Q : Quoting α)

/-- Between the quotes the value stands for itself. -/
structure Plain (v : List α) : Prop where
  doubled : Q.closing ∈ v → Q.doubled = true
  absent : ∀ s, s <:+ v → Q.escape (s ++ [Q.closing]) = .absent

theorem plain_nil : Q.Plain [] where
  doubled := fun h => absurd h List.not_mem_nil
  absent := by
    intro s hs
    rw [List.suffix_nil.mp hs]
    exact Q.escape_closing []

theorem plain_cons {c : α} {v : List α} :
    Q.Plain (c :: v) ↔ (c = Q.closing → Q.doubled = true) ∧
      Q.escape (c :: v ++ [Q.closing]) = .absent ∧ Q.Plain v := by
  constructor
  · intro h
    refine ⟨?_, h.absent _ (List.suffix_refl _), ?_, ?_⟩
    · rintro rfl
      exact h.doubled (List.mem_cons_self ..)
    · exact fun hmem => h.doubled (List.mem_cons_of_mem _ hmem)
    · exact fun s hs => h.absent s (hs.trans (List.suffix_cons ..))
  · rintro ⟨hdoubled, habsent, hv⟩
    constructor
    · intro hmem
      obtain rfl | hmem := List.mem_cons.mp hmem
      · exact hdoubled rfl
      · exact hv.doubled hmem
    · intro s hs
      obtain rfl | hs := List.suffix_cons_iff.mp hs
      · exact habsent
      · exact hv.absent s hs

variable [DecidableEq α]

/-! ## Writing -/

def double (v : List α) : List α :=
  v.flatMap fun c => if c = Q.closing then [Q.closing, Q.closing] else [c]

def quote (v : List α) : List α := Q.opening :: (Q.double v ++ [Q.closing])

def write : Token α → List α
  | .quoted v => Q.quote v
  | .other c => [c]

def render (ts : List (Token α)) : List α := ts.flatMap Q.write

@[simp] theorem double_nil : Q.double [] = [] := rfl

@[simp] theorem double_closing (v : List α) :
    Q.double (Q.closing :: v) = Q.closing :: Q.closing :: Q.double v := by
  simp [double]

theorem double_cons {c : α} (h : c ≠ Q.closing) (v : List α) :
    Q.double (c :: v) = c :: Q.double v := by
  simp [double, h]

theorem double_append (v w : List α) : Q.double (v ++ w) = Q.double v ++ Q.double w :=
  List.flatMap_append ..

theorem double_eq_self {v : List α} (h : Q.closing ∉ v) : Q.double v = v := by
  induction v with
  | nil => rfl
  | cons c v ih =>
      rw [List.mem_cons, not_or] at h
      rw [Q.double_cons (Ne.symm h.1), ih h.2]

theorem length_double_cons (c : α) (v : List α) :
    (Q.double (c :: v)).length ≤ (Q.double v).length + 2 ∧
    (Q.double v).length < (Q.double (c :: v)).length := by
  by_cases h : c = Q.closing
  · subst h
    rw [double_closing, List.length_cons, List.length_cons]
    omega
  · rw [Q.double_cons h, List.length_cons]
    omega

@[simp] theorem render_nil : Q.render [] = [] := rfl

@[simp] theorem render_cons (t : Token α) (ts : List (Token α)) :
    Q.render (t :: ts) = Q.write t ++ Q.render ts := rfl

@[simp] theorem render_append (ts us : List (Token α)) :
    Q.render (ts ++ us) = Q.render ts ++ Q.render us :=
  List.flatMap_append ..

/-- Text without quotes. -/
@[simp] theorem render_others (cs : List α) : Q.render (cs.map .other) = cs := by
  induction cs with
  | nil => rfl
  | cons c cs ih => rw [List.map_cons, render_cons, ih]; rfl

/-! ## Reading -/

/-- The value up to the closing character, and the text behind it.  The first `n` characters
    have been read before. -/
def unquote : Nat → List α → Option (List α × List α)
  | _, [] => none
  | n + 1, _ :: cs => unquote n cs
  | 0, c :: cs =>
      match Q.escape (c :: cs) with
      | .malformed => none
      | .sequence out n => (unquote (n - 1) cs).map fun p => (out.toList ++ p.1, p.2)
      | .absent =>
          if c = Q.closing then
            if Q.doubled ∧ cs.head? = some Q.closing then
              (unquote 1 cs).map fun p => (c :: p.1, p.2)
            else some ([], cs)
          else (unquote 0 cs).map fun p => (c :: p.1, p.2)

/-- A quoted token if the text begins with the opening character, else that character. -/
def next : Lexer.Scanner α (Token α)
  | [] => none
  | c :: cs =>
      if c = Q.opening then
        (Q.unquote 0 cs).map fun p => (.quoted p.1, cs.length + 1 - p.2.length)
      else some (.other c, 1)

/-- The tokens of a text; `none` where a quote is not closed or an escape is malformed. -/
def tokens (text : List α) : Option (List (Token α)) :=
  (Lexer.lexemes Q.next text).map (List.map Prod.fst)

omit [DecidableEq α] in
theorem of_map_value {o : Option (List α × List α)} {f : List α → List α} {v rest : List α}
    (h : (o.map fun p => (f p.1, p.2)) = some (v, rest)) : ∃ w, o = some (w, rest) ∧ f w = v := by
  rw [Option.map_eq_some_iff] at h
  obtain ⟨⟨w, rest'⟩, hw, heq⟩ := h
  obtain ⟨hv, rfl⟩ := Prod.mk.inj heq
  exact ⟨w, hw, hv⟩

/-- What a reading takes up: the value it gives can be written in as many characters. -/
theorem unquote_length {n : Nat} {text v rest : List α} (h : Q.unquote n text = some (v, rest)) :
    (Q.double v).length + 1 + rest.length + n ≤ text.length := by
  induction text generalizing n v with
  | nil => simp [unquote] at h
  | cons c cs ih =>
      cases n with
      | succ n =>
          rw [unquote] at h
          have hcs := ih h
          rw [List.length_cons]
          omega
      | zero =>
          rw [unquote] at h
          rw [List.length_cons]
          split at h
          next => cases h
          next out m hescape =>
            obtain ⟨w, hw, rfl⟩ := of_map_value h
            have htwo := Q.two_le _ _ _ hescape
            have hcs := ih hw
            cases out with
            | none =>
                rw [Option.toList_none, List.nil_append]
                omega
            | some x =>
                have hx := (Q.length_double_cons x w).1
                rw [Option.toList_some, List.singleton_append]
                omega
          next =>
            split at h
            next =>
              split at h
              next =>
                obtain ⟨w, hw, rfl⟩ := of_map_value h
                have hcs := ih hw
                have hx := (Q.length_double_cons c w).1
                omega
              next =>
                cases h
                rw [double_nil, List.length_nil]
                omega
            next hc =>
              obtain ⟨w, hw, rfl⟩ := of_map_value h
              have hcs := ih hw
              rw [Q.double_cons hc, List.length_cons]
              omega

/-! ## The values that come back -/

/-- Doubling changes nothing before the next closing character, and so no escape sequence. -/
theorem escape_double {c : α} (hc : c ≠ Q.closing) (v tail : List α) :
    Q.escape (c :: (Q.double v ++ Q.closing :: tail)) = .absent ↔
      Q.escape (c :: v ++ [Q.closing]) = .absent := by
  by_cases hmem : Q.closing ∈ v
  · obtain ⟨as, bs, rfl, has⟩ := List.eq_append_cons_of_mem hmem
    have hnot : Q.closing ∉ c :: as := by
      rw [List.mem_cons, not_or]
      exact ⟨Ne.symm hc, has⟩
    rw [double_append, Q.double_eq_self has, double_closing]
    have hleft : c :: (as ++ Q.closing :: Q.closing :: Q.double bs ++ Q.closing :: tail) =
        (c :: as) ++ Q.closing :: (Q.closing :: Q.double bs ++ Q.closing :: tail) := by simp
    have hright : c :: (as ++ Q.closing :: bs) ++ [Q.closing] =
        (c :: as) ++ Q.closing :: (bs ++ [Q.closing]) := by simp
    rw [hleft, hright]
    exact ⟨Q.escape_local _ _ _ hnot, Q.escape_local _ _ _ hnot⟩
  · have hnot : Q.closing ∉ c :: v := by
      rw [List.mem_cons, not_or]
      exact ⟨Ne.symm hc, hmem⟩
    rw [Q.double_eq_self hmem, ← List.cons_append]
    exact ⟨Q.escape_local _ _ _ hnot, Q.escape_local _ _ _ hnot⟩

theorem unquote_double {v tail : List α} (hv : Q.Plain v) (htail : tail.head? ≠ some Q.closing) :
    Q.unquote 0 (Q.double v ++ Q.closing :: tail) = some (v, tail) := by
  induction v with
  | nil =>
      rw [double_nil, List.nil_append, unquote, Q.escape_closing]
      simp [htail]
  | cons c v ih =>
      obtain ⟨hdoubled, habsent, hrest⟩ := Q.plain_cons.mp hv
      by_cases hc : c = Q.closing
      · subst hc
        have hread : Q.unquote 1 (Q.closing :: (Q.double v ++ Q.closing :: tail)) = some (v, tail) :=
          ih hrest
        rw [double_closing, List.cons_append, List.cons_append, unquote, Q.escape_closing]
        simp [hdoubled rfl, hread]
      · rw [Q.double_cons hc, List.cons_append, unquote, (Q.escape_double hc v tail).mpr habsent]
        simp [hc, ih hrest]

/-- The length of what is left tells that nothing else was read: an escape sequence would have
    used up more characters than its value needs. -/
theorem plain_of_unquote {v tail rest : List α}
    (h : Q.unquote 0 (Q.double v ++ Q.closing :: tail) = some (v, rest))
    (hrest : rest.length = tail.length) : Q.Plain v := by
  induction v with
  | nil => exact Q.plain_nil
  | cons c v ih =>
      by_cases hc : c = Q.closing
      · subst hc
        rw [double_closing, List.cons_append, List.cons_append, unquote, Q.escape_closing] at h
        simp only [if_true, List.head?_cons, and_true] at h
        split at h
        next hdoubled =>
          obtain ⟨w, hw, hvalue⟩ := of_map_value h
          cases hvalue
          exact Q.plain_cons.mpr ⟨fun _ => hdoubled, Q.escape_closing _, ih hw⟩
        next => cases h
      · rw [Q.double_cons hc, List.cons_append, unquote] at h
        split at h
        next => cases h
        next out m hescape =>
          obtain ⟨w, hw, hvalue⟩ := of_map_value h
          have htwo := Q.two_le _ _ _ hescape
          have hlength := Q.unquote_length hw
          have hcons := (Q.length_double_cons c v).2
          rw [List.length_append, List.length_cons] at hlength
          cases out with
          | none =>
              rw [Option.toList_none, List.nil_append] at hvalue
              subst hvalue
              omega
          | some x =>
              rw [Option.toList_some, List.singleton_append] at hvalue
              cases hvalue
              omega
        next habsent =>
          rw [if_neg hc] at h
          obtain ⟨w, hw, hvalue⟩ := of_map_value h
          cases hvalue
          exact Q.plain_cons.mpr
            ⟨fun h => absurd h hc, (Q.escape_double hc v tail).mp habsent, ih hw⟩

/-! ## Texts with quoted values -/

/-- No character outside quotes opens a quote, and none that follows a quote doubles its end. -/
def Separated : List (Token α) → Prop
  | [] => True
  | .other c :: ts => c ≠ Q.opening ∧ Separated ts
  | .quoted _ :: ts => (Q.render ts).head? ≠ some Q.closing ∧ Separated ts

theorem separated_others {cs : List α} {ts : List (Token α)} :
    Q.Separated (cs.map .other ++ ts) ↔ Q.opening ∉ cs ∧ Q.Separated ts := by
  induction cs with
  | nil => simp
  | cons c cs ih =>
      rw [List.map_cons, List.cons_append, Separated, ih, List.mem_cons, not_or, and_assoc]
      exact and_congr_left' ne_comm

theorem next_quote {v rest : List α} (hv : Q.Plain v) (hrest : rest.head? ≠ some Q.closing) :
    Q.next (Q.quote v ++ rest) = some (.quoted v, (Q.quote v).length) := by
  have hread := Q.unquote_double hv hrest
  simp only [quote, List.cons_append, List.append_assoc, List.nil_append, next, if_true, hread,
    Option.map_some, Option.some.injEq, Prod.mk.injEq, true_and, List.length_cons,
    List.length_append, List.length_nil]
  omega

theorem next_length {text : List α} {t : Token α} {n : Nat} (h : Q.next text = some (t, n)) :
    (Q.write t).length ≤ n := by
  cases text with
  | nil => cases h
  | cons c cs =>
      rw [next] at h
      split at h
      next =>
        rw [Option.map_eq_some_iff] at h
        obtain ⟨⟨v, rest⟩, hread, heq⟩ := h
        obtain ⟨rfl, rfl⟩ := Prod.mk.inj heq
        have hlength := Q.unquote_length hread
        simp only [write, quote, List.length_cons, List.length_append, List.length_nil]
        omega
      next =>
        cases h
        exact Nat.le_refl 1

theorem reads_length {text rest : List α} {ls : List (Token α × List α)}
    (h : Lexer.Reads Q.next text ls rest) :
    (Q.render (ls.map Prod.fst)).length + rest.length ≤ text.length := by
  induction h with
  | done text => simp
  | @lexeme t cs text rest ls ne first others ih =>
      have hfirst := Q.next_length first
      simp only [List.map_cons, render_cons, List.length_append]
      omega

theorem reads_render {ts : List (Token α)} (hsep : Q.Separated ts)
    (hplain : ∀ v, .quoted v ∈ ts → Q.Plain v) :
    Lexer.Reads Q.next (Q.render ts) (ts.map fun t => (t, Q.write t)) [] := by
  induction ts with
  | nil => exact .done []
  | cons t ts ih =>
      have hothers : ∀ v, .quoted v ∈ ts → Q.Plain v :=
        fun v hv => hplain v (List.mem_cons_of_mem _ hv)
      cases t with
      | other c =>
          obtain ⟨hc, hsep⟩ := hsep
          refine .lexeme (List.cons_ne_nil _ _) ?_ (ih hsep hothers)
          simp [write, next, hc]
      | quoted v =>
          obtain ⟨hhead, hsep⟩ := hsep
          refine .lexeme (List.cons_ne_nil _ _) ?_ (ih hsep hothers)
          exact Q.next_quote (hplain v (List.mem_cons_self ..)) hhead

theorem plain_of_next {v rest : List α}
    (h : Q.next (Q.quote v ++ rest) = some (.quoted v, (Q.quote v).length)) : Q.Plain v := by
  simp only [quote, List.cons_append, List.append_assoc, List.nil_append, next, if_true,
    Option.map_eq_some_iff] at h
  obtain ⟨⟨w, rest'⟩, hread, heq⟩ := h
  obtain ⟨hw, hlength⟩ := Prod.mk.inj heq
  cases hw
  have hle := Q.unquote_length hread
  simp only [List.length_append, List.length_cons, List.length_nil] at hlength hle
  exact Q.plain_of_unquote hread (by omega)

/-- No token of the text can take up more than was written for it, so each takes up just that. -/
theorem plain_of_reads {ts : List (Token α)} {ls : List (Token α × List α)}
    (hts : ls.map Prod.fst = ts) (h : Lexer.Reads Q.next (Q.render ts) ls []) :
    ∀ v, .quoted v ∈ ts → Q.Plain v := by
  induction ts generalizing ls with
  | nil => exact fun v hv => absurd hv List.not_mem_nil
  | cons t ts ih =>
      obtain ⟨⟨t, cs⟩, ls, rfl, rfl, htail⟩ := List.map_eq_cons_iff.mp hts
      obtain ⟨text, htext, hfirst, hothers⟩ := h.cons_inv
      have hcs := Q.next_length hfirst
      have hrest := Q.reads_length hothers
      rw [htail] at hrest
      simp only [render_cons] at htext hfirst
      have hlength := congrArg List.length htext
      simp only [List.length_append, List.length_nil] at hlength hrest
      obtain ⟨rfl, rfl⟩ := List.append_inj htext (by omega)
      intro v hv
      obtain rfl | hv := List.mem_cons.mp hv
      · exact Q.plain_of_next hfirst
      · exact ih htail hothers v hv

/-- **Quoted values in a text.**  The text is lexed into the tokens it was written from, if and
    only if the quoted values are plain. -/
theorem tokens_render_iff {ts : List (Token α)} (hsep : Q.Separated ts) :
    Q.tokens (Q.render ts) = some ts ↔ ∀ v, .quoted v ∈ ts → Q.Plain v := by
  rw [tokens, Option.map_eq_some_iff]
  constructor
  · rintro ⟨ls, hls, hts⟩
    exact Q.plain_of_reads hts (Lexer.lexemes_eq_some_iff.mp hls)
  · intro hplain
    refine ⟨_, Lexer.lexemes_eq_some_iff.mpr (Q.reads_render hsep hplain), ?_⟩
    rw [List.map_map]
    exact List.map_id _

end Quoting
end HermesPlatform
