/-
  HermesPlatform.Lib.Separated

  Texts whose parts are joined by a separator, and glob patterns of such parts.

  The parts do not contain the separator, so the text gives them back.  A pattern with as
  many parts, each of them a text or a star, matches part by part: a star could take up a
  separator, but then there would be too few left for the rest of the pattern.
-/

import Mathlib.Data.List.Basic
import Mathlib.Data.List.Count
import Mathlib.Data.List.Forall2
import Mathlib.Data.List.Infix

namespace HermesPlatform
namespace Separated

/-! ## Joined parts -/

section Join

variable {α : Type} {sep : α}

/-- Two texts that are cut at their first separator. -/
theorem cut_inj {a b x y : List α} (ha : sep ∉ a) (hb : sep ∉ b)
    (h : a ++ sep :: x = b ++ sep :: y) : a = b ∧ x = y := by
  induction a generalizing b with
  | nil =>
      cases b with
      | nil => exact ⟨rfl, List.tail_eq_of_cons_eq h⟩
      | cons d b => exact absurd (List.head_eq_of_cons_eq h ▸ List.mem_cons_self) hb
  | cons c a ih =>
      cases b with
      | nil => exact absurd (List.head_eq_of_cons_eq h ▸ List.mem_cons_self) ha
      | cons d b =>
          obtain ⟨rfl, hrest⟩ := List.cons.inj h
          obtain ⟨rfl, rfl⟩ := ih (fun hmem => ha (List.mem_cons_of_mem _ hmem))
            (fun hmem => hb (List.mem_cons_of_mem _ hmem)) hrest
          exact ⟨rfl, rfl⟩

theorem intercalate_cons {x : List α} {xs : List (List α)} (h : xs ≠ []) :
    List.intercalate [sep] (x :: xs) = x ++ sep :: List.intercalate [sep] xs := by
  cases xs with
  | nil => exact absurd rfl h
  | cons y ys =>
      rw [List.intercalate_cons_cons, List.append_assoc]
      rfl

/-- **Joined parts can be told apart**, when they are as many. -/
theorem intercalate_inj {xs ys : List (List α)} (hlength : xs.length = ys.length)
    (hxs : ∀ x ∈ xs, sep ∉ x) (hys : ∀ y ∈ ys, sep ∉ y)
    (h : List.intercalate [sep] xs = List.intercalate [sep] ys) : xs = ys := by
  induction xs generalizing ys with
  | nil => exact (List.length_eq_zero_iff.mp hlength.symm).symm
  | cons x xs ih =>
      cases ys with
      | nil => cases hlength
      | cons y ys =>
          have hlen : xs.length = ys.length := Nat.succ.inj hlength
          by_cases hnil : xs = []
          · subst hnil
            obtain rfl := List.length_eq_zero_iff.mp hlen.symm
            rw [List.intercalate_singleton, List.intercalate_singleton] at h
            rw [h]
          · have hnil' : ys ≠ [] := by
              rintro rfl
              exact hnil (List.length_eq_zero_iff.mp hlen)
            rw [intercalate_cons hnil, intercalate_cons hnil'] at h
            obtain ⟨rfl, hrest⟩ :=
              cut_inj (hxs x List.mem_cons_self) (hys y List.mem_cons_self) h
            rw [ih hlen (fun a ha => hxs a (List.mem_cons_of_mem _ ha))
              (fun a ha => hys a (List.mem_cons_of_mem _ ha)) hrest]

theorem count_intercalate [DecidableEq α] {x : List α} {xs : List (List α)}
    (h : ∀ y ∈ x :: xs, sep ∉ y) : (List.intercalate [sep] (x :: xs)).count sep = xs.length := by
  induction xs generalizing x with
  | nil =>
      rw [List.intercalate_singleton]
      exact List.count_eq_zero.mpr (h x List.mem_cons_self)
  | cons y ys ih =>
      have hx : x.count sep = 0 := List.count_eq_zero.mpr (h x List.mem_cons_self)
      have hys := ih fun z hz => h z (List.mem_cons_of_mem _ hz)
      rw [intercalate_cons (List.cons_ne_nil y ys), List.count_append, hx, List.count_cons_self,
        hys, List.length_cons, Nat.zero_add]

end Join

/-! ## Patterns -/

/-- The characters that stand for themselves in a pattern. -/
def Ordinary (c : Char) : Prop := c ∉ ['*', '?', '[', '\\']

instance (c : Char) : Decidable (Ordinary c) := by
  unfold Ordinary
  infer_instance

/-- A test of glob patterns: `*` stands for any text, and an ordinary character for
    itself. -/
structure Glob where
  test : List Char → List Char → Bool
  nil : ∀ text, test [] text = true ↔ text = []
  star : ∀ pattern text, test ('*' :: pattern) text = true ↔
    ∃ front rest, text = front ++ rest ∧ test pattern rest = true
  literal : ∀ c pattern text, Ordinary c →
    (test (c :: pattern) text = true ↔ ∃ rest, text = c :: rest ∧ test pattern rest = true)

/-- A part of a pattern: a text, or a star. -/
def segment : Option (List Char) → List Char
  | some text => text
  | none => ['*']

namespace Glob

variable (g : Glob) {sep : Char}

theorem test_append {front : List Char} (h : ∀ c ∈ front, Ordinary c)
    (pattern text : List Char) :
    g.test (front ++ pattern) text = true ↔
      ∃ rest, text = front ++ rest ∧ g.test pattern rest = true := by
  induction front generalizing text with
  | nil =>
      constructor
      · intro htest
        exact ⟨text, rfl, htest⟩
      · rintro ⟨rest, rfl, htest⟩
        exact htest
  | cons c front ih =>
      rw [List.cons_append, g.literal c _ _ (h c List.mem_cons_self)]
      have hfront := ih fun a ha => h a (List.mem_cons_of_mem _ ha)
      constructor
      · rintro ⟨rest, rfl, htest⟩
        obtain ⟨rest', rfl, htest'⟩ := (hfront rest).mp htest
        exact ⟨rest', rfl, htest'⟩
      · rintro ⟨rest, rfl, htest⟩
        exact ⟨front ++ rest, rfl, (hfront _).mpr ⟨rest, rfl, htest⟩⟩

/-- A pattern and a text that begin differently, with as many characters. -/
theorem test_eq_false {front front' : List Char} (h : ∀ c ∈ front, Ordinary c)
    (hlength : front.length = front'.length) (hne : front ≠ front') (pattern text : List Char) :
    g.test (front ++ pattern) (front' ++ text) = false := by
  refine Bool.eq_false_iff.mpr fun htest => ?_
  obtain ⟨rest, htext, -⟩ := (g.test_append h _ _).mp htest
  exact hne (List.append_inj_left htext hlength.symm).symm

/-- What a part of a pattern matches begins the text. -/
theorem test_segment {p : Option (List Char)} (h : ∀ l, p = some l → ∀ c ∈ l, Ordinary c)
    (pattern text : List Char) :
    g.test (segment p ++ pattern) text = true ↔
      ∃ front rest, text = front ++ rest ∧ (∀ l, p = some l → front = l) ∧
        g.test pattern rest = true := by
  cases p with
  | none =>
      refine (g.star pattern text).trans ?_
      constructor
      · rintro ⟨front, rest, htext, htest⟩
        exact ⟨front, rest, htext, fun _ hl => absurd hl nofun, htest⟩
      · rintro ⟨front, rest, htext, -, htest⟩
        exact ⟨front, rest, htext, htest⟩
  | some l =>
      refine (g.test_append (h l rfl) pattern text).trans ?_
      constructor
      · rintro ⟨rest, htext, htest⟩
        exact ⟨l, rest, htext, fun l' hl => Option.some.inj hl, htest⟩
      · rintro ⟨front, rest, htext, hfront, htest⟩
        rw [hfront l rfl] at htext
        exact ⟨rest, htext, htest⟩

/-- Every separator of a pattern is one of the text. -/
theorem le_count (hsep : Ordinary sep) {p : Option (List Char)} {ps : List (Option (List Char))}
    (h : ∀ l, some l ∈ p :: ps → ∀ c ∈ l, Ordinary c) {text : List Char}
    (htest : g.test (List.intercalate [sep] ((p :: ps).map segment)) text = true) :
    ps.length ≤ text.count sep := by
  induction ps generalizing p text with
  | nil => exact Nat.zero_le _
  | cons q qs ih =>
      have hmap : (q :: qs).map segment ≠ [] := List.cons_ne_nil _ _
      rw [List.map_cons, intercalate_cons hmap] at htest
      have hp : ∀ l, p = some l → ∀ c ∈ l, Ordinary c := fun l hl => h l (hl ▸ List.mem_cons_self)
      obtain ⟨front, rest, rfl, -, hrest⟩ := (g.test_segment hp _ _).mp htest
      obtain ⟨behind, rfl, hbehind⟩ := (g.literal sep _ _ hsep).mp hrest
      have hqs := ih (fun l hl => h l (List.mem_cons_of_mem _ hl)) hbehind
      rw [List.count_append, List.count_cons_self, List.length_cons]
      omega

/-- **A pattern matches part by part.** -/
theorem test_intercalate (hsep : Ordinary sep) {ps : List (Option (List Char))}
    {texts : List (List Char)} (hlength : ps.length = texts.length)
    (hps : ∀ l, some l ∈ ps → ∀ c ∈ l, Ordinary c) (htexts : ∀ t ∈ texts, sep ∉ t)
    (hsegments : ∀ l, some l ∈ ps → sep ∉ l) :
    g.test (List.intercalate [sep] (ps.map segment)) (List.intercalate [sep] texts) = true ↔
      List.Forall₂ (fun p t => ∀ l, p = some l → t = l) ps texts := by
  induction ps generalizing texts with
  | nil =>
      obtain rfl := List.length_eq_zero_iff.mp hlength.symm
      exact iff_of_true ((g.nil []).mpr rfl) List.Forall₂.nil
  | cons p ps ih =>
      cases texts with
      | nil => cases hlength
      | cons t ts =>
          have hlen : ps.length = ts.length := Nat.succ.inj hlength
          have hp : ∀ l, p = some l → ∀ c ∈ l, Ordinary c := fun l hl =>
            hps l (hl ▸ List.mem_cons_self)
          have htest := g.test_segment hp
          rw [List.forall₂_cons]
          by_cases hnil : ps = []
          · subst hnil
            obtain rfl := List.length_eq_zero_iff.mp hlen.symm
            have hone := htest [] t
            rw [List.append_nil] at hone
            simp only [List.map_cons, List.map_nil, List.intercalate_singleton, hone,
              List.Forall₂.nil, and_true]
            constructor
            · rintro ⟨front, rest, rfl, hfront, hrest⟩
              rw [(g.nil rest).mp hrest, List.append_nil]
              exact hfront
            · intro hfront
              exact ⟨t, [], (List.append_nil t).symm, hfront, (g.nil []).mpr rfl⟩
          · have hnil' : ts ≠ [] := by
              rintro rfl
              exact hnil (List.length_eq_zero_iff.mp hlen)
            have hmap : ps.map segment ≠ [] := fun h => hnil (List.map_eq_nil_iff.mp h)
            have hrest := ih hlen (fun l hl => hps l (List.mem_cons_of_mem _ hl))
              (fun a ha => htexts a (List.mem_cons_of_mem _ ha))
              (fun l hl => hsegments l (List.mem_cons_of_mem _ hl))
            rw [List.map_cons, intercalate_cons hmap, intercalate_cons hnil', htest, ← hrest]
            constructor
            · rintro ⟨front, rest, htext, hfront, hmatch⟩
              obtain ⟨behind, rfl, hbehind⟩ := (g.literal sep _ _ hsep).mp hmatch
              have hno : sep ∉ front := by
                intro hmem
                -- The front has taken a separator up, and the rest lacks it.
                obtain ⟨q, qs, rfl⟩ := List.exists_cons_of_ne_nil hnil
                obtain ⟨u, us, rfl⟩ := List.exists_cons_of_ne_nil hnil'
                have hneed := g.le_count hsep (fun l hl => hps l (List.mem_cons_of_mem _ hl))
                  hbehind
                have hhave := congrArg (List.count sep) htext
                have hparts := count_intercalate fun y hy => htexts y (List.mem_cons_of_mem _ hy)
                have ht : t.count sep = 0 := List.count_eq_zero.mpr (htexts t List.mem_cons_self)
                have hfrontCount : 0 < front.count sep := List.count_pos_iff.mpr hmem
                rw [List.count_append, List.count_append, List.count_cons_self,
                  List.count_cons_self, hparts, ht] at hhave
                rw [List.length_cons, List.length_cons] at hlen
                omega
              obtain ⟨rfl, rfl⟩ := cut_inj (htexts t List.mem_cons_self) hno htext
              exact ⟨hfront, hbehind⟩
            · rintro ⟨hfront, hmatch⟩
              exact ⟨t, _, rfl, hfront, (g.literal sep _ _ hsep).mpr ⟨_, rfl, hmatch⟩⟩

/-- The test of a pattern without brackets and escapes. -/
def starTest : List Char → List Char → Bool
  | [], text => text.isEmpty
  | c :: pattern, text =>
      if c = '*' then text.tails.any (starTest pattern)
      else if c = '[' || c = '\\' then false
      else
        match text with
        | [] => false
        | d :: rest => (c = '?' || c = d) && starTest pattern rest

/-- The glob test that knows `*` and `?` only. -/
def stars : Glob where
  test := starTest
  nil := fun text => List.isEmpty_iff
  star := by
    intro pattern text
    rw [starTest.eq_def]
    dsimp only
    rw [if_pos rfl, List.any_eq_true]
    constructor
    · rintro ⟨rest, hrest, htest⟩
      obtain ⟨front, rfl⟩ := (List.mem_tails rest text).mp hrest
      exact ⟨front, rest, rfl, htest⟩
    · rintro ⟨front, rest, rfl, htest⟩
      exact ⟨rest, (List.mem_tails rest _).mpr (List.suffix_append front rest), htest⟩
  literal := by
    intro c pattern text hc
    have hstar : c ≠ '*' := fun h => hc (by simp [h])
    have hquery : c ≠ '?' := fun h => hc (by simp [h])
    have hspecial : ¬ ((c = '[' || c = '\\') = true) := by
      intro h
      simp only [Bool.or_eq_true, decide_eq_true_eq] at h
      exact hc (by rcases h with rfl | rfl <;> simp)
    rw [starTest.eq_def]
    dsimp only
    rw [if_neg hstar, if_neg hspecial]
    cases text with
    | nil => simp
    | cons d rest =>
        simp only [decide_eq_false hquery, Bool.false_or, Bool.and_eq_true, decide_eq_true_eq,
          List.cons.injEq]
        constructor
        · rintro ⟨rfl, htest⟩
          exact ⟨rest, ⟨rfl, rfl⟩, htest⟩
        · rintro ⟨rest', ⟨rfl, rfl⟩, htest⟩
          exact ⟨rfl, htest⟩

end Glob

end Separated
end HermesPlatform
