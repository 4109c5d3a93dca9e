/-
  HermesPlatform.Knowledge.ChunkProgress

  Whether each window of `chunk_text` ends behind the one before it, and has a chunk that is not
  inside the one before it.

  A window may end at a break in its second half, and the overlap then takes the next one back
  to before that break.  When the break is in the second half of the next window too, and is the
  last one there, that window ends where the one before it did.  When the text behind the end is
  blank up to the next end, the chunk of the next window is the end of the chunk before it.
-/

import HermesPlatform.Knowledge.Chunks
import Mathlib.Data.List.Chain

namespace HermesPlatform
namespace Knowledge

open Python

/-! ## Where a text can be cut -/

section Cuts

variable (text : List Char) (maxChars overlapChars : Nat)

/-- A line end or a blank. -/
def IsBreak (i : Nat) : Prop := text[i]? = some '\n' ∨ text[i]? = some ' '

instance (i : Nat) : Decidable (IsBreak text i) := by
  unfold IsBreak
  infer_instance

/-- What a window from `start` on may end at: the end of the text, the last break of its second
    half, or its full size. -/
inductive Cut (start : Nat) : Nat → Prop where
  | rest : text.length ≤ start + maxChars → Cut start text.length
  | atBreak {b : Nat} : start + maxChars < text.length → start + maxChars / 2 ≤ b →
      b < start + maxChars → IsBreak text b →
      (∀ i, b < i → i < start + maxChars → ¬ IsBreak text i) → Cut start b
  | full : start + maxChars < text.length →
      (∀ i, start + maxChars / 2 ≤ i → i < start + maxChars → ¬ IsBreak text i) →
      Cut start (start + maxChars)

/-- The start behind a window. -/
def following (start e : Nat) : Nat := max (start + 1) (e - overlapChars)

/-- The starts that the loop comes to from `first` on. -/
inductive Visits : Nat → Nat → Prop where
  | here {first : Nat} : first < text.length → Visits first first
  | later {first e s : Nat} : first < text.length → Cut text maxChars first e → e < text.length →
      Visits (following overlapChars first e) s → Visits first s

/-- A part of the text with nothing but blanks. -/
def Blank (i j : Nat) : Prop := ∀ k c, i ≤ k → k < j → text[k]? = some c → isSpace c = true

/-- The break at the end of the window is the last one of the next window's second half. -/
def Repeats (start : Nat) : Prop :=
  ∃ b, Cut text maxChars start b ∧ IsBreak text b ∧
    following overlapChars start b + maxChars / 2 ≤ b ∧
    following overlapChars start b + maxChars < text.length ∧
    ∀ i, b < i → i < following overlapChars start b + maxChars → ¬ IsBreak text i

/-- A part of the text that is inside another. -/
def Inside (t s : Nat × Nat) : Prop := s.1 ≤ t.1 ∧ t.2 ≤ s.2

/-- Behind the window there are only blanks up to the end of the next one, whose overlap with the
    window is not blank. -/
def RunsDry (start : Nat) : Prop :=
  ∃ e e', Cut text maxChars start e ∧ e < text.length ∧
    Cut text maxChars (following overlapChars start e) e' ∧ Blank text e e' ∧
    ¬ Blank text (following overlapChars start e) e

end Cuts

/-! ## The end of a window is a cut -/

section Ends

variable {text : List Char} {maxChars overlapChars : Nat}

theorem rfind_cases (text : List Char) (c : Char) (first last : Nat) :
    (rfind text c first last = -1 ∧ ∀ i, first ≤ i → i < last → text[i]? ≠ some c) ∨
      ∃ i : Nat, rfind text c first last = i ∧ first ≤ i ∧ i < last ∧ text[i]? = some c ∧
        ∀ j, i < j → j < last → text[j]? ≠ some c := by
  induction last with
  | zero => exact .inl ⟨rfl, fun i _ hi => absurd hi (Nat.not_lt_zero i)⟩
  | succ last ih =>
      rw [rfind]
      split
      next hempty => exact .inl ⟨rfl, fun i hlow hhigh => by omega⟩
      next hfirst =>
        split
        next hfound => exact .inr ⟨last, rfl, by omega, by omega, hfound, fun j _ _ => by omega⟩
        next hnot =>
          obtain ⟨hnone, hall⟩ | ⟨i, hi, hlow, hhigh, hfound, hall⟩ := ih
          · refine .inl ⟨hnone, fun i hlow hhigh => ?_⟩
            obtain rfl | hlt := Nat.eq_or_lt_of_le (Nat.le_of_lt_succ hhigh)
            · exact hnot
            · exact hall i hlow hlt
          · refine .inr ⟨i, hi, hlow, by omega, hfound, fun j hj hhigh => ?_⟩
            obtain rfl | hlt := Nat.eq_or_lt_of_le (Nat.le_of_lt_succ hhigh)
            · exact hnot
            · exact hall j hj hlt

/-- The later of the two places is the last break. -/
theorem boundary_cases (text : List Char) (first last : Nat) :
    (max (rfind text '\n' first last) (rfind text ' ' first last) = -1 ∧
      ∀ i, first ≤ i → i < last → ¬ IsBreak text i) ∨
    ∃ b : Nat, max (rfind text '\n' first last) (rfind text ' ' first last) = b ∧ first ≤ b ∧
      b < last ∧ IsBreak text b ∧ ∀ i, b < i → i < last → ¬ IsBreak text i := by
  obtain ⟨hline, hlines⟩ | ⟨i, hline, hlow, hhigh, hfound, hlines⟩ :=
    rfind_cases text '\n' first last
  · obtain ⟨hblank, hblanks⟩ | ⟨j, hblank, hlow', hhigh', hfound', hblanks⟩ :=
      rfind_cases text ' ' first last
    · refine .inl ⟨by rw [hline, hblank]; rfl, fun k hk hk' hbreak => ?_⟩
      exact hbreak.elim (hlines k hk hk') (hblanks k hk hk')
    · refine .inr ⟨j, by omega, hlow', hhigh', .inr hfound', fun k hk hk' hbreak => ?_⟩
      exact hbreak.elim (hlines k (by omega) hk') (hblanks k hk hk')
  · obtain ⟨hblank, hblanks⟩ | ⟨j, hblank, hlow', hhigh', hfound', hblanks⟩ :=
      rfind_cases text ' ' first last
    · refine .inr ⟨i, by omega, hlow, hhigh, .inl hfound, fun k hk hk' hbreak => ?_⟩
      exact hbreak.elim (hlines k hk hk') (hblanks k (by omega) hk')
    · obtain hle | hlt := Nat.le_total i j
      · refine .inr ⟨j, by omega, hlow', hhigh', .inr hfound', fun k hk hk' hbreak => ?_⟩
        exact hbreak.elim (hlines k (by omega) hk') (hblanks k hk hk')
      · refine .inr ⟨i, by omega, hlow, hhigh, .inl hfound, fun k hk hk' hbreak => ?_⟩
        exact hbreak.elim (hlines k hk hk') (hblanks k (by omega) hk')

/-- **`end`** is a cut. -/
theorem cut_windowEnd (hmax : 1 < maxChars) (text : List Char) (start : Nat) :
    Cut text maxChars start (windowEnd text maxChars start) := by
  simp only [windowEnd]
  split
  next hmore =>
    have hfull : start + maxChars < text.length := by omega
    rw [Nat.min_eq_right (Nat.le_of_lt hfull)]
    obtain ⟨hnone, hall⟩ | ⟨b, hb, hlow, hhigh, hbreak, hlast⟩ :=
      boundary_cases text (start + maxChars / 2) (start + maxChars)
    · rw [hnone, if_neg (by omega)]
      exact .full hfull hall
    · rw [hb, if_pos (by omega), Int.toNat_natCast]
      exact .atBreak hfull hlow hhigh hbreak hlast
  next hrest =>
    rw [Nat.min_eq_left (by omega)]
    exact .rest (by omega)

/-- A window has one end. -/
theorem Cut.unique {start e e' : Nat} (h : Cut text maxChars start e)
    (h' : Cut text maxChars start e') : e = e' := by
  cases h with
  | rest hrest =>
      cases h' with
      | rest => rfl
      | atBreak hfull => omega
      | full hfull => omega
  | atBreak hfull hlow hhigh hbreak hlast =>
      cases h' with
      | rest hrest => omega
      | atBreak _ hlow' hhigh' hbreak' hlast' =>
          by_contra hne
          obtain hlt | hlt := Nat.lt_or_gt_of_ne hne
          · exact hlast _ hlt hhigh' hbreak'
          · exact hlast' _ hlt hhigh hbreak
      | full _ hnone => exact absurd hbreak (hnone _ hlow hhigh)
  | full hfull hnone =>
      cases h' with
      | rest hrest => omega
      | atBreak _ hlow hhigh hbreak => exact absurd hbreak (hnone _ hlow hhigh)
      | full => rfl

theorem cut_iff (hmax : 1 < maxChars) {start e : Nat} :
    Cut text maxChars start e ↔ e = windowEnd text maxChars start := by
  constructor
  · exact fun h => h.unique (cut_windowEnd hmax text start)
  · rintro rfl
    exact cut_windowEnd hmax text start

/-- The next end is not before this one, and is this one only where the break is found again. -/
theorem Cut.next_le {start next e e' : Nat} (hnext : start < next)
    (h : Cut text maxChars start e) (hless : e < text.length)
    (h' : Cut text maxChars next e') :
    e ≤ e' ∧ (e = e' ↔ IsBreak text e ∧ next + maxChars / 2 ≤ e ∧ next + maxChars < text.length ∧
      ∀ i, e < i → i < next + maxChars → ¬ IsBreak text i) := by
  have hsize : e ≤ start + maxChars := by
    cases h with
    | rest => omega
    | atBreak _ _ hhigh => omega
    | full => exact Nat.le_refl _
  cases h' with
  | rest hrest => exact ⟨Nat.le_of_lt hless, by omega⟩
  | full hfull hnone =>
      refine ⟨by omega, by omega, ?_⟩
      rintro ⟨hbreak, hlow, -, -⟩
      exact absurd hbreak (hnone e hlow (by omega))
  | atBreak hfull hlow hhigh hbreak hlast =>
      refine ⟨?_, ?_, ?_⟩
      · by_contra hlt
        -- A break before the end would be in the second half of this window, too.
        cases h with
        | rest => omega
        | atBreak hfull' hlow' hhigh' hbreak' hlast' => exact hlast _ (by omega) (by omega) hbreak'
        | full hfull' hnone' => exact hnone' _ (by omega) (by omega) hbreak
      · rintro rfl
        exact ⟨hbreak, hlow, hfull, hlast⟩
      · rintro ⟨hbreak', hlow', -, hlast'⟩
        by_contra hne
        obtain hlt | hlt := Nat.lt_or_gt_of_ne hne
        · exact hlast' _ hlt hhigh hbreak
        · exact hlast _ hlt (by omega) hbreak'

end Ends

/-! ## Blank parts -/

section Blanks

variable {text : List Char}

/-- A chunk ends with a character that is not blank. -/
theorem stripped_last {w : Nat × Nat} (h : w.1 ≤ w.2) (hw : w.2 ≤ text.length)
    (hne : stripChars (slice text w) ≠ []) :
    ∃ c, text[(stripped text w).2 - 1]? = some c ∧ isSpace c = false := by
  obtain ⟨hlow, hhigh⟩ := stripped_le h hw
  have hpos : 0 < (stripChars (slice text w)).length := List.length_pos_of_ne_nil hne
  refine ⟨(stripChars (slice text w)).getLast hne, ?_, ?_⟩
  · have hpart := @getElem?_slice text (stripped text w) ((stripped text w).2 - 1)
      (by simp only [stripped]; omega) (by simp only [stripped]; omega)
    rw [← hpart, slice_stripped h hw, List.getLast_eq_getElem, ← List.getElem?_eq_getElem]
    congr 1
    simp only [stripped]
    omega
  · have hlast := List.rdropWhile_last_not isSpace ((slice text w).dropWhile isSpace) hne
    exact (Bool.not_eq_true _).mp hlast

/-- The chunk of a window that is not blank has the window's characters that are not blank. -/
theorem not_blank_iff {w : Nat × Nat} (h : w.1 ≤ w.2) (hw : w.2 ≤ text.length) :
    stripChars (slice text w) ≠ [] ↔ ¬ Blank text w.1 w.2 := by
  constructor
  · intro hne hblank
    obtain ⟨c, hc, hnot⟩ := stripped_head hne
    obtain ⟨hlow, hhigh⟩ := stripped_le h hw
    have hpos : 0 < (stripChars (slice text w)).length := List.length_pos_of_ne_nil hne
    have hin : (stripped text w).1 < w.2 := by
      simp only [stripped] at hhigh ⊢
      omega
    rw [hblank _ c hlow hin hc] at hnot
    cases hnot
  · intro hnot hempty
    apply hnot
    intro k c hlow hhigh hc
    refine isSpace_outside hlow hhigh hc ?_
    simp only [stripped, hempty, List.length_nil]
    omega

/-- The chunk of the next window is inside the chunk of this one exactly where the text between
    their ends is blank. -/
theorem inside_iff {w w' : Nat × Nat} (h : w.1 ≤ w.2) (hstart : w.1 < w'.1) (h' : w'.1 ≤ w'.2)
    (hend : w.2 ≤ w'.2) (hlength : w'.2 ≤ text.length) (hmeet : w'.1 ≤ w.2)
    (hne' : stripChars (slice text w') ≠ []) :
    Inside (stripped text w') (stripped text w) ↔ Blank text w.2 w'.2 := by
  obtain ⟨hlow, hhigh⟩ := stripped_le h (Nat.le_trans hend hlength)
  obtain ⟨hlow', hhigh'⟩ := stripped_le h' hlength
  constructor
  · rintro ⟨-, hinside⟩ k c hk hk' hc
    exact @isSpace_outside text w' k c (Nat.le_trans hmeet hk) hk' hc (.inr (by omega))
  · intro hblank
    refine ⟨stripped_mono (Nat.le_trans hend hlength) h hstart hne', ?_⟩
    obtain ⟨c, hc, hnot⟩ := stripped_last h' hlength hne'
    have hpos : 0 < (stripChars (slice text w')).length := List.length_pos_of_ne_nil hne'
    have hnonempty : (stripped text w').1 < (stripped text w').2 := by
      simp only [stripped]
      omega
    -- The last character of the chunk is in this window, so it is in this window's chunk.
    by_contra hout
    have hspace : isSpace c = true := by
      by_cases hin : (stripped text w').2 - 1 < w.2
      · exact @isSpace_outside text w _ c (by omega) hin hc (.inr (by omega))
      · exact hblank _ c (by omega) (by omega) hc
    rw [hnot] at hspace
    cases hspace

end Blanks

/-! ## Consecutive windows -/

section Consecutive

variable {text : List Char} {maxChars overlapChars : Nat}

/-- What is to hold of the windows on a text and of its chunks. -/
structure FreshProgress (text : List Char) (windows : List (Nat × Nat)) : Prop where
  /-- A window ends behind the one before it. -/
  ends : windows.IsChain fun w w' => w.2 < w'.2
  /-- A chunk is not a part of the one before it. -/
  chunks : (spans text windows).IsChain fun s t => ¬ Inside t s

theorem forall_visits_iff (hmax : 1 < maxChars) {Q : Nat → Prop} {start : Nat}
    (hstart : start < text.length) :
    (∀ s, Visits text maxChars overlapChars start s → Q s) ↔
      Q start ∧ (windowEnd text maxChars start < text.length →
        ∀ s, Visits text maxChars overlapChars (nextStart text maxChars overlapChars start) s →
          Q s) := by
  constructor
  · intro h
    exact ⟨h start (.here hstart), fun hless s hs =>
      h s (.later hstart (cut_windowEnd hmax text start) hless hs)⟩
  · rintro ⟨hfirst, hrest⟩ s hs
    cases hs with
    | here => exact hfirst
    | later _ hcut hless hs =>
        obtain rfl := (cut_iff hmax).mp hcut
        exact hrest hless s hs

theorem not_visits (hstart : text.length ≤ start) (s : Nat) :
    ¬ Visits text maxChars overlapChars start s := by
  intro hs
  cases hs with
  | here h => omega
  | later h => omega

theorem head_windowsFrom {start : Nat} (hstart : start < text.length) :
    (windowsFrom text maxChars overlapChars start).head? =
      some (start, windowEnd text maxChars start) := by
  rw [windowsFrom_of_lt hstart]
  rfl

theorem repeats_iff (hmax : 1 < maxChars) {start : Nat} (hstart : start < text.length) :
    Repeats text maxChars overlapChars start ↔ windowEnd text maxChars start < text.length ∧
      windowEnd text maxChars start =
        windowEnd text maxChars (nextStart text maxChars overlapChars start) := by
  have hcut := cut_windowEnd hmax text start
  obtain ⟨hnext, -, -⟩ := nextStart_bounds overlapChars (Nat.lt_of_succ_lt hmax) hstart
  constructor
  · rintro ⟨b, hb, hbreak, hrest⟩
    obtain rfl := (cut_iff hmax).mp hb
    have hless : windowEnd text maxChars start < text.length := by
      obtain hc | hc := hbreak
      · exact (List.getElem?_eq_some_iff.mp hc).1
      · exact (List.getElem?_eq_some_iff.mp hc).1
    exact ⟨hless, (Cut.next_le hnext hcut hless (cut_windowEnd hmax text _)).2.mpr ⟨hbreak, hrest⟩⟩
  · rintro ⟨hless, hsame⟩
    obtain ⟨hbreak, hrest⟩ :=
      (Cut.next_le hnext hcut hless (cut_windowEnd hmax text _)).2.mp hsame
    exact ⟨_, hcut, hbreak, hrest⟩

theorem runsDry_iff (hmax : 1 < maxChars) {start : Nat} :
    RunsDry text maxChars overlapChars start ↔ windowEnd text maxChars start < text.length ∧
      Blank text (windowEnd text maxChars start)
        (windowEnd text maxChars (nextStart text maxChars overlapChars start)) ∧
      ¬ Blank text (nextStart text maxChars overlapChars start)
        (windowEnd text maxChars start) := by
  constructor
  · rintro ⟨e, e', hcut, hless, hcut', hrest⟩
    obtain rfl := (cut_iff hmax).mp hcut
    obtain rfl := (cut_iff hmax).mp hcut'
    exact ⟨hless, hrest⟩
  · rintro ⟨hless, hrest⟩
    exact ⟨_, _, cut_windowEnd hmax text start, hless, cut_windowEnd hmax text _, hrest⟩

/-- The ends grow where no break is found again. -/
theorem ends_iff (hmax : 1 < maxChars) (start : Nat) :
    ((windowsFrom text maxChars overlapChars start).IsChain fun w w' => w.2 < w'.2) ↔
      ∀ s, Visits text maxChars overlapChars start s →
        ¬ Repeats text maxChars overlapChars s := by
  fun_induction windowsFrom text maxChars overlapChars start with
  | case1 start hstart ih =>
      rw [forall_visits_iff hmax hstart, repeats_iff hmax hstart]
      split
      next hfinish => simp [Nat.not_lt.mpr hfinish]
      next hfinish =>
        have hless : windowEnd text maxChars start < text.length := by omega
        obtain ⟨hnext, hmeet, -⟩ := nextStart_bounds overlapChars (Nat.lt_of_succ_lt hmax) hstart
        obtain ⟨hle, -⟩ := Cut.next_le hnext (cut_windowEnd hmax text start) hless
          (cut_windowEnd hmax text _)
        rw [List.isChain_cons, ih, head_windowsFrom (by omega)]
        simp only [Option.mem_def, Option.some.injEq, forall_eq', hless, true_and, forall_const]
        refine and_congr_left fun _ => ?_
        omega
  | case2 start hstart =>
      simp [not_visits (Nat.le_of_not_lt hstart)]

theorem spans_cons_of_blank {w : Nat × Nat} {windows : List (Nat × Nat)}
    (h : stripChars (slice text w) = []) : spans text (w :: windows) = spans text windows := by
  rw [spans, List.filter_cons_of_neg (by simpa using h), spans]

theorem spans_cons {w : Nat × Nat} {windows : List (Nat × Nat)}
    (h : stripChars (slice text w) ≠ []) :
    spans text (w :: windows) = stripped text w :: spans text windows := by
  rw [spans, List.filter_cons_of_pos (by simpa using h), List.map_cons, spans]

theorem Blank.mono {i j i' j' : Nat} (h : Blank text i j) (hlow : i ≤ i') (hhigh : j' ≤ j) :
    Blank text i' j' :=
  fun k c hk hk' hc => h k c (Nat.le_trans hlow hk) (Nat.lt_of_lt_of_le hk' hhigh) hc

/-- No chunk of a later window is inside this one's, when the overlap is blank. -/
theorem not_inside_of_blank (hmax : 0 < maxChars) {w : Nat × Nat} {next : Nat} (h : w.1 ≤ w.2)
    (hw : w.2 ≤ text.length) (hblank : Blank text next w.2) {t : Nat × Nat}
    (ht : t ∈ spans text (windowsFrom text maxChars overlapChars next)) :
    ¬ Inside t (stripped text w) := by
  rintro ⟨-, hinside⟩
  obtain ⟨w', hmem, hne, rfl⟩ := exists_window ht
  obtain ⟨hfirst, hlow, hhigh, -⟩ := windows_bounds hmax next w' hmem
  obtain ⟨c, hc, hnot⟩ := stripped_head hne
  obtain ⟨-, hend⟩ := stripped_le h hw
  obtain ⟨hlow', -⟩ := stripped_le (Nat.le_of_lt hlow) hhigh
  have hpos : 0 < (stripChars (slice text w')).length := List.length_pos_of_ne_nil hne
  have hnonempty : (stripped text w').1 < (stripped text w').2 := by
    simp only [stripped]
    omega
  have hspace := hblank _ c (by omega) (by omega) hc
  rw [hnot] at hspace
  cases hspace

/-- The chunk behind a window's chunk is not inside it, unless the text runs dry there. -/
theorem head_not_inside_iff (hmax : 1 < maxChars) {start : Nat} (hstart : start < text.length)
    (hless : windowEnd text maxChars start < text.length) :
    (∀ t ∈ (spans text (windowsFrom text maxChars overlapChars
        (nextStart text maxChars overlapChars start))).head?,
      ¬ Inside t (stripped text (start, windowEnd text maxChars start))) ↔
      ¬ RunsDry text maxChars overlapChars start := by
  have hpos : 0 < maxChars := Nat.lt_of_succ_lt hmax
  obtain ⟨hwindow, hlength, -⟩ := windowEnd_bounds hpos hstart
  obtain ⟨hnext, hmeet, -⟩ := nextStart_bounds overlapChars hpos hstart
  obtain ⟨hle, -⟩ := Cut.next_le hnext (cut_windowEnd hmax text start) hless
    (cut_windowEnd hmax text _)
  have hafter : nextStart text maxChars overlapChars start < text.length := by omega
  obtain ⟨hwindow', hlength', -⟩ := windowEnd_bounds hpos hafter
  rw [runsDry_iff hmax]
  by_cases hchunk' : stripChars (slice text (nextStart text maxChars overlapChars start,
      windowEnd text maxChars (nextStart text maxChars overlapChars start))) = []
  · have hblank : Blank text (nextStart text maxChars overlapChars start)
        (windowEnd text maxChars (nextStart text maxChars overlapChars start)) := by
      by_contra hnot
      exact (not_blank_iff (Nat.le_of_lt hwindow') hlength').mpr hnot hchunk'
    have hover := hblank.mono (Nat.le_refl _) hle
    refine iff_of_true ?_ fun h => h.2.2 hover
    intro t ht
    exact not_inside_of_blank hpos (Nat.le_of_lt hwindow) hlength hover (List.mem_of_mem_head? ht)
  · have hhead : (spans text (windowsFrom text maxChars overlapChars
        (nextStart text maxChars overlapChars start))).head? =
          some (stripped text (nextStart text maxChars overlapChars start,
            windowEnd text maxChars (nextStart text maxChars overlapChars start))) := by
      rw [windowsFrom_of_lt hafter, spans_cons hchunk']
      rfl
    rw [hhead]
    simp only [Option.mem_def, Option.some.injEq, forall_eq']
    rw [inside_iff (Nat.le_of_lt hwindow) hnext (Nat.le_of_lt hwindow') hle hlength' hmeet hchunk']
    have hnot := (not_blank_iff (Nat.le_of_lt hwindow') hlength').mp hchunk'
    refine not_congr ⟨fun hblank => ⟨hless, hblank, fun hover => hnot ?_⟩, fun h => h.2.1⟩
    -- The next window would be blank on both sides of this one's end.
    intro k c hk hk' hc
    by_cases hin : k < windowEnd text maxChars start
    · exact hover k c hk hin hc
    · exact hblank k c (Nat.le_of_not_lt hin) hk' hc

/-- No chunk is inside the one before it where no window's text runs dry. -/
theorem chunks_iff (hmax : 1 < maxChars) (start : Nat) :
    ((spans text (windowsFrom text maxChars overlapChars start)).IsChain fun s t =>
      ¬ Inside t s) ↔
      ∀ s, Visits text maxChars overlapChars start s →
        ¬ RunsDry text maxChars overlapChars s := by
  fun_induction windowsFrom text maxChars overlapChars start with
  | case1 start hstart ih =>
      obtain ⟨hwindow, hlength, -⟩ := windowEnd_bounds (Nat.lt_of_succ_lt hmax) hstart
      obtain ⟨hnext, -, -⟩ := nextStart_bounds overlapChars (Nat.lt_of_succ_lt hmax) hstart
      have hblank (hchunk : stripChars (slice text (start, windowEnd text maxChars start)) = []) :
          ¬ RunsDry text maxChars overlapChars start := by
        -- Nothing of the window is left, so its overlap with the next one is blank.
        rw [runsDry_iff hmax]
        rintro ⟨-, -, hover⟩
        refine (not_blank_iff (Nat.le_of_lt hwindow) hlength).mpr (fun h => hover ?_) hchunk
        exact h.mono (Nat.le_of_lt hnext) (Nat.le_refl _)
      rw [forall_visits_iff hmax hstart]
      by_cases hchunk : stripChars (slice text (start, windowEnd text maxChars start)) = []
      · rw [spans_cons_of_blank hchunk]
        split
        next hfinish => simp [hblank hchunk, spans, Nat.not_lt.mpr hfinish]
        next hfinish => simp only [ih, hblank hchunk, Nat.lt_of_not_le hfinish, not_false_eq_true,
          true_and, forall_const]
      · rw [spans_cons hchunk]
        split
        next hfinish =>
          have hdry : ¬ RunsDry text maxChars overlapChars start := by
            rw [runsDry_iff hmax]
            exact fun h => absurd h.1 (Nat.not_lt.mpr hfinish)
          simp [hdry, spans, Nat.not_lt.mpr hfinish]
        next hfinish =>
          have hless := Nat.lt_of_not_le hfinish
          rw [List.isChain_cons, head_not_inside_iff hmax hstart hless]
          simp only [ih, hless, forall_const]
  | case2 start hstart =>
      simp [not_visits (Nat.le_of_not_lt hstart), spans]

/-- **Fresh progress**, text by text. -/
theorem freshProgress_windows_iff (hmax : 1 < maxChars) :
    FreshProgress text (windowsFrom text maxChars overlapChars 0) ↔
      ∀ s, Visits text maxChars overlapChars 0 s →
        ¬ Repeats text maxChars overlapChars s ∧ ¬ RunsDry text maxChars overlapChars s := by
  constructor
  · rintro ⟨hends, hchunks⟩ s hs
    exact ⟨(ends_iff hmax 0).mp hends s hs, (chunks_iff hmax 0).mp hchunks s hs⟩
  · intro h
    exact ⟨(ends_iff hmax 0).mpr fun s hs => (h s hs).1,
      (chunks_iff hmax 0).mpr fun s hs => (h s hs).2⟩

end Consecutive

/-! ## Two words on one line -/

section TwoWords

/-- Two words with `q` blanks between them. -/
def twoWords (p q r : Nat) : List Char :=
  List.replicate p 'a' ++ (List.replicate q ' ' ++ List.replicate r 'b')

variable {p q r : Nat}

theorem length_twoWords (p q r : Nat) : (twoWords p q r).length = p + (q + r) := by
  simp [twoWords]

theorem mem_twoWords {c : Char} (h : c ∈ twoWords p q r) : c = 'a' ∨ c = ' ' ∨ c = 'b' := by
  simp only [twoWords, List.mem_append, List.mem_replicate] at h
  obtain ⟨-, rfl⟩ | ⟨-, rfl⟩ | ⟨-, rfl⟩ := h
  · exact .inl rfl
  · exact .inr (.inl rfl)
  · exact .inr (.inr rfl)

theorem getElem?_twoWords (p q r i : Nat) : (twoWords p q r)[i]? =
    if i < p then some 'a' else if i < p + q then some ' '
    else if i < p + (q + r) then some 'b' else none := by
  rw [twoWords, List.getElem?_append, List.getElem?_append, List.getElem?_replicate,
    List.getElem?_replicate, List.getElem?_replicate, List.length_replicate,
    List.length_replicate]
  by_cases hp : i < p
  · rw [if_pos hp, if_pos hp, if_pos hp]
  rw [if_neg hp, if_neg hp]
  by_cases hq : i < p + q
  · rw [if_pos (by omega : i - p < q), if_pos (by omega : i - p < q), if_pos hq]
  rw [if_neg (by omega : ¬ i - p < q), if_neg hq]
  by_cases hr : i < p + (q + r)
  · rw [if_pos (by omega : i - p - q < r), if_pos hr]
  · rw [if_neg (by omega : ¬ i - p - q < r), if_neg hr]

theorem isBreak_twoWords (i : Nat) : IsBreak (twoWords p q r) i ↔ p ≤ i ∧ i < p + q := by
  rw [IsBreak, getElem?_twoWords]
  constructor
  · intro h
    by_contra hout
    split at h
    · revert h
      decide
    · rw [if_neg (by omega)] at h
      split at h
      · revert h
        decide
      · revert h
        decide
  · rintro ⟨hlow, hhigh⟩
    rw [if_neg (by omega), if_pos hhigh]
    exact .inr rfl

theorem normalized_twoWords (hp : 0 < p) (hr : 0 < r) :
    normalized (String.ofList (twoWords p q r)) = twoWords p q r := by
  have hmem : ∀ c ∈ twoWords p q r, c ≠ '\r' ∧ c ≠ '\n' := by
    intro c hc
    obtain rfl | rfl | rfl := mem_twoWords hc
    · decide
    · decide
    · decide
  have hcrlf (cs : List Char) (h : ∀ c ∈ cs, c ≠ '\r' ∧ c ≠ '\n') : replaceCrlf cs = cs := by
    induction cs with
    | nil => rfl
    | cons c cs ih =>
        rw [replaceCrlf.eq_2 _ _ fun rest hc _ => (h c List.mem_cons_self).1 hc,
          ih fun c hc => h c (List.mem_cons_of_mem _ hc)]
  have hlast : rstripChars (twoWords p q r) = twoWords p q r := by
    obtain ⟨r, rfl⟩ := Nat.exists_eq_add_of_lt hr
    rw [rstripChars, twoWords, Nat.zero_add, List.replicate_succ', ← List.append_assoc,
      ← List.append_assoc, List.reverse_append]
    simp only [List.reverse_cons, List.reverse_nil, List.nil_append, List.singleton_append]
    rw [List.dropWhile_cons_of_neg (by decide), List.reverse_cons, List.reverse_reverse]
  have hfirst : (twoWords p q r).dropWhile isSpace = twoWords p q r := by
    obtain ⟨p, rfl⟩ := Nat.exists_eq_add_of_lt hp
    rw [twoWords, Nat.zero_add, List.replicate_succ, List.cons_append,
      List.dropWhile_cons_of_neg (by decide)]
  have hlines : (twoWords p q r).splitOn '\n' = [twoWords p q r] :=
    List.splitOnP_eq_singleton fun c hc => by simpa using (hmem c hc).2
  rw [normalized, String.toList_ofList, hcrlf _ hmem, hlines, List.map_singleton, hlast]
  show stripChars (twoWords p q r ++ []) = twoWords p q r
  rw [List.append_nil, stripChars, hfirst, hlast]

end TwoWords

/-! ## The configurations -/

/-- With an overlap of half a window or more, a break that is just behind the middle of a window
    is found again. -/
theorem repeats_twoWords {maxChars overlapChars : Nat} (hmax : 256 ≤ maxChars)
    (hoverlap : maxChars / 2 ≤ overlapChars) :
    Repeats (twoWords (maxChars / 2 + 1) 1 (2 * maxChars)) maxChars overlapChars 0 := by
  have hfollowing : following overlapChars 0 (maxChars / 2 + 1) = 1 := by
    rw [following]
    omega
  refine ⟨maxChars / 2 + 1, ?_, ?_, ?_, ?_, ?_⟩
  · refine .atBreak ?_ (by omega) (by omega) ?_ ?_
    · rw [length_twoWords]
      omega
    · rw [isBreak_twoWords]
      omega
    · intro i hi _
      rw [isBreak_twoWords]
      omega
  · rw [isBreak_twoWords]
    omega
  · omega
  · rw [length_twoWords]
    omega
  · intro i hi _
    rw [isBreak_twoWords]
    omega

/-- With any overlap, a line of blanks that fills a window leaves of it the end of the word before
    the blanks. -/
theorem runsDry_twoWords {maxChars overlapChars : Nat} (hmax : 256 ≤ maxChars)
    (hoverlap : 0 < overlapChars) :
    RunsDry (twoWords (maxChars - 1) (maxChars + 1) 1) maxChars overlapChars 0 := by
  obtain ⟨next, hnext⟩ : ∃ next, following overlapChars 0 (maxChars - 1) = next := ⟨_, rfl⟩
  have hlow : 1 ≤ next ∧ next < maxChars - 1 := by
    rw [← hnext, following]
    omega
  refine ⟨maxChars - 1, next + maxChars - 1, ?_, ?_, ?_, ?_, ?_⟩
  · refine .atBreak ?_ (by omega) (by omega) ?_ fun i _ _ => by omega
    · rw [length_twoWords]
      omega
    · rw [isBreak_twoWords]
      omega
  · rw [length_twoWords]
    omega
  · rw [hnext]
    refine .atBreak ?_ (by omega) (by omega) ?_ fun i _ _ => by omega
    · rw [length_twoWords]
      omega
    · rw [isBreak_twoWords]
      omega
  · intro k c hk hk' hc
    rw [getElem?_twoWords, if_neg (by omega), if_pos (by omega), Option.some.injEq] at hc
    rw [← hc]
    rfl
  · rw [hnext]
    intro hblank
    have ha := hblank next 'a' (Nat.le_refl _) hlow.2
      (by rw [getElem?_twoWords, if_pos hlow.2])
    revert ha
    decide

/-- **`chunk_text`** makes fresh progress on a text where no break is found again and no window
    runs dry; on every text without overlap alone, and with ends that grow on every text for an
    overlap of less than half a window. -/
theorem chunkText_progress_iff (maxChars overlapChars : Int) (hmax : 256 ≤ maxChars)
    (hoverlap : 0 ≤ overlapChars) (hless : overlapChars < maxChars) :
    (∀ text, chunkText text maxChars overlapChars = .ok ((spans (normalized text)
        (windowsFrom (normalized text) maxChars.toNat overlapChars.toNat 0)).map
          fun s => String.ofList (slice (normalized text) s)) ∧
      (FreshProgress (normalized text)
          (windowsFrom (normalized text) maxChars.toNat overlapChars.toNat 0) ↔
        ∀ s, Visits (normalized text) maxChars.toNat overlapChars.toNat 0 s →
          ¬ Repeats (normalized text) maxChars.toNat overlapChars.toNat s ∧
            ¬ RunsDry (normalized text) maxChars.toNat overlapChars.toNat s)) ∧
    ((∀ text, (windowsFrom (normalized text) maxChars.toNat overlapChars.toNat 0).IsChain
        fun w w' => w.2 < w'.2) ↔ overlapChars < maxChars / 2) ∧
    ((∀ text, FreshProgress (normalized text)
        (windowsFrom (normalized text) maxChars.toNat overlapChars.toNat 0)) ↔
      overlapChars = 0) := by
  have hone : 1 < maxChars.toNat := by omega
  have hline {p q r : Nat} (hp : 0 < p) (hr : 0 < r) :
      normalized (String.ofList (twoWords p q r)) = twoWords p q r ∧
        Visits (twoWords p q r) maxChars.toNat overlapChars.toNat 0 0 := by
    refine ⟨normalized_twoWords hp hr, .here ?_⟩
    rw [length_twoWords]
    omega
  refine ⟨fun text => ⟨chunkText_parts text hmax hoverlap hless,
    freshProgress_windows_iff hone⟩, ⟨?_, ?_⟩, ⟨?_, ?_⟩⟩
  · intro hends
    by_contra hhalf
    obtain ⟨hnormal, hvisits⟩ := @hline (maxChars.toNat / 2 + 1) 1 (2 * maxChars.toNat)
      (by omega) (by omega)
    have htext := hends (String.ofList (twoWords (maxChars.toNat / 2 + 1) 1 (2 * maxChars.toNat)))
    rw [hnormal, ends_iff hone] at htext
    exact htext 0 hvisits (repeats_twoWords (by omega) (by omega))
  · intro hhalf text
    refine (ends_iff hone 0).mpr fun s _ hrepeats => ?_
    obtain ⟨b, -, -, hlow, -⟩ := hrepeats
    rw [following] at hlow
    omega
  · intro hfresh
    by_contra hne
    obtain ⟨hnormal, hvisits⟩ := @hline (maxChars.toNat - 1) (maxChars.toNat + 1) 1
      (by omega) (by omega)
    have htext := hfresh (String.ofList (twoWords (maxChars.toNat - 1) (maxChars.toNat + 1) 1))
    rw [hnormal, freshProgress_windows_iff hone] at htext
    exact (htext 0 hvisits).2 (runsDry_twoWords (by omega) (by omega))
  · rintro rfl text
    refine (freshProgress_windows_iff hone).mpr fun s hs => ⟨?_, ?_⟩
    · rintro ⟨b, -, -, hlow, -⟩
      rw [following] at hlow
      omega
    · -- The next window starts where this one ends.
      rintro ⟨e, e', hcut, -, -, -, hover⟩
      apply hover
      intro k c hk hk'
      rw [following] at hk
      omega

theorem chunkText_progress_default :
    (150 : Int) < 1200 / 2 ∧
      ∀ text, (windowsFrom (normalized text) 1200 150 0).IsChain fun w w' => w.2 < w'.2 :=
  ⟨by decide, (chunkText_progress_iff 1200 150 (by decide) (by decide) (by decide)).2.1.mpr
    (by decide)⟩

/-- A word that ends just behind the middle of the first window. -/
theorem chunkText_repeats :
    ¬ ∀ (text : String) (maxChars overlapChars : Int), 256 ≤ maxChars → maxChars ≤ 10000 →
      0 ≤ overlapChars → overlapChars < maxChars →
      FreshProgress (normalized text)
        (windowsFrom (normalized text) maxChars.toNat overlapChars.toNat 0) := by
  intro h
  have htext := h (String.ofList (twoWords 129 1 512)) 256 200 (by decide) (by decide) (by decide)
    (by decide)
  rw [normalized_twoWords (by decide) (by decide)] at htext
  refine ((freshProgress_windows_iff (by decide)).mp htext 0 (.here ?_)).1 ?_
  · rw [length_twoWords]
    decide
  · exact @repeats_twoWords 256 200 (by decide) (by decide)

end Knowledge
end HermesPlatform
